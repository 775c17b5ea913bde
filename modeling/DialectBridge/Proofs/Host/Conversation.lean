import DialectBridge.Proofs.Host.Idling

/-!
# What a server is told

Calls are made, the first of the queue takes the connection, replies come in and let their callers go
on, requests expire, the server falls silent, refuses messages or dies, in any order.  Seen from the
server, each connection is one orderly conversation all the same.

* `Speaks`, `Sound` — every connection carries a conversation in order, its link has counted the texts
  of each document, and who waits has said its part;
* `Sound.act` — every step of the server keeps this;
* `Scene` — the server, the virtual documents, the tasks asked of it and all messages sent;
* `conversation_in_order` — what a server is told, message by message.
-/

namespace DialectBridge.Host

namespace Server

variable {s t u : Server} {n : Nat}

/-! ## Conversations of a server -/

/-- A connection carries a conversation in order.  Its link counts the texts of each document, a call
is under way on it just if one has brought its document, and who waits on it waits for the request of
its own turn, or has given it up. -/
structure Speaks (processId : Json) (s : Server) (tasks : List Task) (n : Nat) (c : Connection)
    (stage : Stage) (calls : List Call) (turns : List Turn) (log : List Json) : Prop where
  talk : Talk (greeting processId) stage calls turns log
  current : s.current = some n → stage ≠ .greeted
  starting : ∀ start, s.starting = some start → start.connection = n → stage = .greeted
  held : ∀ h, stage = .half h ↔ s.holder = some h ∧ h.connection = n ∧ h.brought = true
  made : ∀ t ∈ turns, tasks[t.caller]? = some (.call t.call)
  numbered : ∀ t ∈ turns, t.id < c.link.nextId
  versions : c.writing = true →
    ∀ uri, c.link.version? uri = Link.counted (Call.about calls uri).length
  asked : ∀ w ∈ s.waiting, w.connection = n →
    w.request < c.link.nextId ∧ ∀ t ∈ turns, t.id = w.request → t.caller = w.caller
  said : ∀ w ∈ s.waiting, w.connection = n → w.closing = false →
    ∃ t ∈ turns, t.id = w.request ∧ t.caller = w.caller
  closing : ∀ w ∈ s.waiting, w.connection = n → w.closing = true →
    s.current ≠ some n ∧ stage ≠ .greeted

/-- Every connection carries a conversation in order, about the tasks asked. -/
structure Sound (processId : Json) (s : Server) (tasks : List Task) (sent : List (Nat × Json)) :
    Prop where
  process : s.processId = processId
  proper : ∀ call, .call call ∈ tasks → call.Proper
  queue : ∀ ticket ∈ s.queue, tasks[ticket.caller]? = some ticket.task
  starting : ∀ start, s.starting = some start → tasks[start.caller]? = some (.call start.call)
  current : ∀ n, s.current = some n → n < s.connections.length
  holder : ∀ h, s.holder = some h → s.starting = none ∧ s.current = some h.connection ∧
    tasks[h.caller]? = some (.call h.call)
  waiting : ∀ w ∈ s.waiting, w.connection < s.connections.length
  silent : ∀ n, s.connections.length ≤ n → sentOn sent n = []
  speaks : ∀ (n : Nat) (c : Connection), s.connections[n]? = some c →
    ∃ stage calls turns, Speaks processId s tasks n c stage calls turns (sentOn sent n)

variable {processId : Json} {tasks : List Task} {sent : List (Nat × Json)} {stage : Stage}
  {calls : List Call} {turns : List Turn} {log : List Json} {c d : Connection} {h : Holder}

theorem sound_idle (program : String) (limit : Nat) (processId : Json) :
    Sound processId (.idle program limit processId) [] [] where
  process := rfl
  proper _ h := absurd h List.not_mem_nil
  queue _ h := absurd h List.not_mem_nil
  starting _ h := by cases h
  current _ h := by cases h
  holder _ h := by cases h
  waiting _ h := absurd h List.not_mem_nil
  silent _ _ := rfl
  speaks n c h := by simp [idle] at h

theorem Speaks.fades (h : Speaks processId s tasks n c stage calls turns log) (hfades : Fades s t)
    (hlags : Lags c d) : Speaks processId t tasks n d stage calls turns log where
  talk := h.talk
  current := by rw [hfades.current]; exact h.current
  starting b hb hn := by
    obtain ⟨a, ha, hconn, -⟩ := hfades.starting b hb
    exact h.starting a ha (hconn ▸ hn)
  held := by rw [hfades.holder]; exact h.held
  made := h.made
  numbered t ht := Int.lt_of_lt_of_le (h.numbered t ht) hlags.1
  versions hwriting uri := by
    obtain ⟨hw, hversions⟩ := hlags.2 hwriting
    rw [← h.versions hw uri, Link.version?, hversions, Link.version?]
  asked v hv hn := by
    obtain ⟨w, hw, hconn, hreq, hcaller, -⟩ := hfades.waiting v hv
    obtain ⟨hlt, howner⟩ := h.asked w hw (hconn ▸ hn)
    rw [hreq, hcaller]
    exact ⟨Int.lt_of_lt_of_le hlt hlags.1, howner⟩
  said v hv hn hclosing := by
    obtain ⟨w, hw, hconn, hreq, hcaller, hclosing'⟩ := hfades.waiting v hv
    rw [hreq, hcaller]
    exact h.said w hw (hconn ▸ hn) (hclosing' ▸ hclosing)
  closing v hv hn hclosing := by
    obtain ⟨w, hw, hconn, -, -, hclosing'⟩ := hfades.waiting v hv
    rw [hfades.current]
    exact h.closing w hw (hconn ▸ hn) (hclosing' ▸ hclosing)

theorem Sound.fades (h : Sound processId s tasks sent) (hfades : Fades s t) :
    Sound processId t tasks sent where
  process := hfades.processId.trans h.process
  proper := h.proper
  queue ticket hmem := h.queue ticket (hfades.queue ticket hmem)
  starting b hb := by
    obtain ⟨a, ha, -, hcaller, hcall⟩ := hfades.starting b hb
    rw [hcaller, hcall]
    exact h.starting a ha
  current n hn := hfades.length ▸ h.current n (hfades.current ▸ hn)
  holder k hk := by
    obtain ⟨hstarting, hcurrent, htask⟩ := h.holder k (hfades.holder ▸ hk)
    refine ⟨?_, hfades.current.trans hcurrent, htask⟩
    cases hnew : t.starting with
    | none => rfl
    | some b =>
      obtain ⟨a, ha, -⟩ := hfades.starting b hnew
      cases hstarting.symm.trans ha
  waiting v hv := by
    obtain ⟨w, hw, hconn, -⟩ := hfades.waiting v hv
    rw [hconn, hfades.length]
    exact h.waiting w hw
  silent n hn := h.silent n (hfades.length ▸ hn)
  speaks n d hd := by
    obtain ⟨c, hc, hlags⟩ := hfades.connections n d hd
    obtain ⟨stage, calls, turns, hspeaks⟩ := h.speaks n c hc
    exact ⟨stage, calls, turns, hspeaks.fades hfades hlags⟩

/-- A message that may be sent on a connection now. -/
def Allows (s : Server) (n : Nat) (message : Json) : Prop :=
  Interjection message ∨ Aside message ∧ ∀ h, s.holder = some h → h.connection ≠ n

theorem Speaks.allows (h : Speaks processId s tasks n c stage calls turns log) {message : Json}
    (hallows : s.Allows n message) : stage.Allows message := by
  rcases hallows with hinterjection | ⟨haside, hfree⟩
  · exact hinterjection.allowed stage
  · cases stage with
    | half holder =>
      obtain ⟨hholder, hn, -⟩ := (h.held holder).mp rfl
      exact absurd hn (hfree holder hholder)
    | _ => exact haside

theorem Sound.aside (h : Sound processId s tasks sent) {message : Json}
    (hn : n < s.connections.length) (hallows : s.Allows n message) :
    Sound processId s tasks (sent ++ [(n, message)]) :=
  { h with
    silent := by
      intro k hk
      rw [sentOn_append, h.silent k hk, sentOn_cons, if_neg (by omega)]
      rfl
    speaks := by
      intro k c hc
      obtain ⟨stage, calls, turns, hspeaks⟩ := h.speaks k c hc
      refine ⟨stage, calls, turns, { hspeaks with talk := ?_ }⟩
      rw [sentOn_append, sentOn_cons]
      split
      · rename_i hk
        subst hk
        exact hspeaks.talk.aside (hspeaks.allows hallows)
      · rw [sentOn_nil, List.append_nil]
        exact hspeaks.talk }

theorem Sound.asides (h : Sound processId s tasks sent) (out : List (Nat × Json))
    (hout : ∀ entry ∈ out, entry.1 < s.connections.length ∧ s.Allows entry.1 entry.2) :
    Sound processId s tasks (sent ++ out) := by
  induction out generalizing sent with
  | nil => rwa [List.append_nil]
  | cons entry rest ih =>
    obtain ⟨hn, hallows⟩ := hout entry List.mem_cons_self
    rw [List.append_cons]
    exact ih (h.aside hn hallows) fun e he => hout e (List.mem_cons_of_mem _ he)

theorem Sound.idles (h : Sound processId s tasks sent) {done : Server × List ServerOutput}
    (hidles : Idles s done) : Sound processId done.1 tasks (sent ++ sends done.2) := by
  have hasides := h.asides (sends done.2) fun entry hentry =>
    ⟨(hidles.2 entry hentry).1, .inl (hidles.2 entry hentry).2⟩
  exact hasides.fades hidles.1

/-- A connection that has been given up is nobody's any more, so that it may be told at any time. -/
theorem Sound.woken (h : Sound processId s tasks sent) {w : Waiting} (hw : w ∈ s.waiting)
    (reply : Reply) :
    Sound processId (s.woken w reply).1 tasks (sent ++ sends (s.woken w reply).2) := by
  have hasides := h.asides (sends (s.woken w reply).2) fun entry hentry => by
    obtain ⟨rfl, hclosing, hn⟩ := sends_woken hentry
    obtain ⟨stage, calls, turns, hspeaks⟩ := h.speaks _ _ (List.getElem?_eq_getElem hn)
    refine ⟨hn, .inr ⟨aside_exit, fun holder hholder hsame => ?_⟩⟩
    obtain ⟨-, hcurrent, -⟩ := h.holder holder hholder
    exact (hspeaks.closing w hw rfl hclosing).1 (hcurrent.trans (congrArg some hsame))
  exact hasides.fades (fades_woken s w reply)

/-! ### Connections begin, are taken and given up -/

theorem getElem?_setLink (s : Server) (n k : Nat) (link : Link) :
    (s.setLink n link).connections[k]? =
      s.connections[k]?.map fun c => if n = k then { c with link } else c := by
  unfold setLink modify
  rw [List.getElem?_modify]
  rfl

theorem length_setLink (s : Server) (n : Nat) (link : Link) :
    (s.setLink n link).connections.length = s.connections.length :=
  List.length_modify ..

theorem Sound.launch (h : Sound processId s tasks sent) (hfree : s.holder = none) {caller : Nat}
    {call : Call} (htask : tasks[caller]? = some (.call call)) :
    Sound processId (s.launch caller call).1 tasks (sent ++ sends (s.launch caller call).2) where
  process := h.process
  proper := h.proper
  queue := h.queue
  starting start hstart := by
    cases hstart
    exact htask
  current n hn := by
    have := h.current n hn
    simp only [Server.launch, List.length_append, List.length_singleton]
    omega
  holder k hk := by cases hfree.symm.trans hk
  waiting w hw := by
    have := h.waiting w hw
    simp only [Server.launch, List.length_append, List.length_singleton]
    omega
  silent n hn := by
    simp only [Server.launch, List.length_append, List.length_singleton] at hn
    have hne : s.connections.length ≠ n := by omega
    simp [Server.launch, sends, h.silent n (by omega), hne]
  speaks n c hc := by
    have hsends : sends (s.launch caller call).2 = [(s.connections.length, greeting processId)] := by
      rw [← h.process]
      rfl
    rw [hsends, sentOn_append, sentOn_cons, sentOn_nil]
    simp only [Server.launch] at hc
    rcases Nat.lt_trichotomy n s.connections.length with hlt | rfl | hgt
    · rw [List.getElem?_append_left hlt] at hc
      obtain ⟨stage, calls, turns, hspeaks⟩ := h.speaks n c hc
      rw [if_neg (by omega), List.append_nil]
      refine ⟨stage, calls, turns, { hspeaks with starting := ?_ }⟩
      intro start hstart hn
      cases hstart
      exact absurd hn (by simp only; omega)
    · rw [List.getElem?_concat_length, Option.some.injEq] at hc
      subst hc
      rw [h.silent _ (Nat.le_refl _), if_pos rfl, List.nil_append]
      exact ⟨.greeted, [], [], {
        talk := .greet
        current := fun hn => absurd (h.current _ hn) (Nat.lt_irrefl _)
        starting := fun _ _ _ => rfl
        held := fun k => iff_of_false Stage.noConfusion fun hk => by cases hfree.symm.trans hk.1
        made := fun t ht => absurd ht List.not_mem_nil
        numbered := fun t ht => absurd ht List.not_mem_nil
        versions := fun _ _ => rfl
        asked := fun w hw hn => absurd (hn ▸ h.waiting w hw) (Nat.lt_irrefl _)
        said := fun w hw hn => absurd (hn ▸ h.waiting w hw) (Nat.lt_irrefl _)
        closing := fun w hw hn => absurd (hn ▸ h.waiting w hw) (Nat.lt_irrefl _) }⟩
    · rw [List.getElem?_eq_none (by simp; omega)] at hc
      cases hc

/-- Changes that do not concern a conversation: nobody new waits on its connection, and nobody comes or
leaves between a document and its request. -/
theorem Speaks.keeps (hspeaks : Speaks processId s tasks n c stage calls turns log)
    (hcurrent : t.current = some n → s.current = some n) (hstarting : t.starting = s.starting)
    (hholder : ∀ h, h.connection = n → h.brought = true → (t.holder = some h ↔ s.holder = some h))
    (hwaiting : ∀ w ∈ t.waiting, w.connection = n → w ∈ s.waiting) :
    Speaks processId t tasks n c stage calls turns log where
  talk := hspeaks.talk
  current hn := hspeaks.current (hcurrent hn)
  starting := by rw [hstarting]; exact hspeaks.starting
  held h := by
    rw [hspeaks.held h]
    exact and_congr_left fun ⟨hn, hbrought⟩ => (hholder h hn hbrought).symm
  made := hspeaks.made
  numbered := hspeaks.numbered
  versions := hspeaks.versions
  asked w hw hn := hspeaks.asked w (hwaiting w hw hn) hn
  said w hw hn := hspeaks.said w (hwaiting w hw hn) hn
  closing w hw hn hclosing := by
    obtain ⟨hgiven, hstage⟩ := hspeaks.closing w (hwaiting w hw hn) hn hclosing
    exact ⟨fun hn => hgiven (hcurrent hn), hstage⟩

/-- A caller takes the current connection; nothing is sent yet. -/
theorem Sound.hold (h : Sound processId s tasks sent) {caller : Nat} {call : Call}
    (hstarting : s.starting = none) (hfree : s.holder = none) (hn : s.current = some n)
    (htask : tasks[caller]? = some (.call call)) :
    Sound processId (s.hold n caller call) tasks sent :=
  { h with
    holder := by
      rintro k ⟨⟩
      exact ⟨hstarting, hn, htask⟩
    speaks := by
      intro k c hc
      obtain ⟨stage, calls, turns, hspeaks⟩ := h.speaks k c hc
      refine ⟨stage, calls, turns, hspeaks.keeps id rfl ?_ fun w hw _ => hw⟩
      intro holder _ hbrought
      rw [hfree]
      refine iff_of_false ?_ fun hnone => by cases hnone
      rintro ⟨⟩
      cases hbrought }

/-- The caller that has the connection leaves it, perhaps without its request. -/
theorem Sound.leave (hsound : Sound processId s tasks sent) (hholder : s.holder = some h) :
    Sound processId { s with holder := none } tasks sent :=
  { hsound with
    holder := fun _ hnone => by cases hnone
    speaks := by
      intro k c hc
      obtain ⟨stage, calls, turns, hspeaks⟩ := hsound.speaks k c hc
      by_cases hhalf : h.connection = k ∧ h.brought = true
      · obtain rfl := (hspeaks.held h).mpr ⟨hholder, hhalf⟩
        exact ⟨.ready, calls, turns, { hspeaks with
          talk := hspeaks.talk.leave
          current := fun _ => Stage.noConfusion
          starting := fun start hstart hn => by cases hspeaks.starting start hstart hn
          held := fun _ => iff_of_false Stage.noConfusion fun hnone => by cases hnone.1
          closing := fun w hw hn hclosing =>
            ⟨(hspeaks.closing w hw hn hclosing).1, Stage.noConfusion⟩ }⟩
      · refine ⟨stage, calls, turns, hspeaks.keeps id rfl ?_ fun w hw _ => hw⟩
        intro other hk hbrought
        refine iff_of_false (fun hnone => by cases hnone) fun hother => hhalf ?_
        obtain rfl := Option.some.inj (hholder.symm.trans hother)
        exact ⟨hk, hbrought⟩ }

/-- A link may count on where nothing is sent any more. -/
theorem fades_setLink_of_blocked {link : Link} (hblocked : s.writing? n = false)
    (hid : (s.link n).nextId ≤ link.nextId) : Fades s (s.setLink n link) := by
  refine fades_modify s n fun c hc => ⟨?_, fun hwriting => ?_⟩
  · rw [link_eq hc] at hid
    exact hid
  · have htaken : s.writing? n = true := by simpa [writing?, hc] using hwriting
    cases hblocked.symm.trans htaken

/-- One connection says more.  The other conversations stand still. -/
theorem Sound.say (hsound : Sound processId s tasks sent) {link : Link} {current : Option Nat}
    {holder : Option Holder} {waiting : List Waiting} {message : Json}
    (hc : s.connections[n]? = some c) (hcurrent : ∀ k, current = some k → s.current = some k)
    (hbefore : ∀ h, s.holder = some h → h.connection = n)
    (hholder : ∀ h, holder = some h → h.connection = n ∧ s.starting = none ∧
      current = some h.connection ∧ tasks[h.caller]? = some (.call h.call))
    (hwaiting : ∀ w ∈ waiting, w ∈ s.waiting ∨ w.connection = n)
    (hspeaks : ∃ stage calls turns,
      Speaks processId { s.setLink n link with current, holder, waiting } tasks n { c with link } stage
        calls turns (sentOn sent n ++ [message])) :
    Sound processId { s.setLink n link with current, holder, waiting } tasks
      (sent ++ [(n, message)]) where
  process := hsound.process
  proper := hsound.proper
  queue := hsound.queue
  starting := hsound.starting
  current k hk := by
    show k < (s.setLink n link).connections.length
    rw [length_setLink]
    exact hsound.current k (hcurrent k hk)
  holder k hk := (hholder k hk).2
  waiting w hw := by
    show w.connection < (s.setLink n link).connections.length
    rw [length_setLink]
    rcases hwaiting w hw with hold | hn
    · exact hsound.waiting w hold
    · rw [hn]
      exact (List.getElem?_eq_some_iff.mp hc).1
  silent k hk := by
    change (s.setLink n link).connections.length ≤ k at hk
    rw [length_setLink] at hk
    have hlt : n < s.connections.length := (List.getElem?_eq_some_iff.mp hc).1
    rw [sentOn_append, hsound.silent k hk, sentOn_cons, if_neg (by omega)]
    rfl
  speaks k d hd := by
    change (s.setLink n link).connections[k]? = some d at hd
    rw [getElem?_setLink] at hd
    obtain ⟨e, he, rfl⟩ := Option.map_eq_some_iff.mp hd
    rw [sentOn_append, sentOn_cons, sentOn_nil]
    by_cases hk : n = k
    · subst hk
      obtain rfl : c = e := Option.some.inj (hc.symm.trans he)
      rw [if_pos rfl, if_pos rfl]
      exact hspeaks
    · obtain ⟨stage, calls, turns, hother⟩ := hsound.speaks k e he
      rw [if_neg hk, if_neg hk, List.append_nil]
      refine ⟨stage, calls, turns, hother.keeps (hcurrent k) rfl ?_ ?_⟩
      · intro h hn _
        exact iff_of_false (fun hnew => hk ((hholder h hnew).1.symm.trans hn))
          fun hold => hk ((hbefore h hold).symm.trans hn)
      · intro w hw hn
        exact (hwaiting w hw).resolve_right fun hw => hk (hw.symm.trans hn)

/-! ### A call brings its document, then asks -/

theorem about_concat (calls : List Call) (call : Call) (uri : Uri) :
    (Call.about (calls ++ [call]) uri).length =
      if uri.text = call.uri.text then (Call.about calls uri).length + 1
      else (Call.about calls uri).length := by
  unfold Call.about
  by_cases h : uri.text = call.uri.text
  · simp [List.filter_append, h]
  · simp [List.filter_append, h, Ne.symm h]

/-- The link after a document has been brought for the `k`-th time. -/
def broughtLink (l : Link) (uri : Uri) (k : Nat) : Link :=
  l.setVersion uri (Int32.ofNat k)

/-- The link after a request. -/
def askedLink (l : Link) : Link :=
  { l with nextId := l.nextId + 1, pending := l.pending ++ [l.nextId] }

theorem version?_broughtLink {l : Link}
    (h : ∀ uri, l.version? uri = Link.counted (Call.about calls uri).length) (call : Call)
    (uri : Uri) :
    (broughtLink l call.uri ((Call.about calls call.uri).length + 1)).version? uri =
      Link.counted (Call.about (calls ++ [call]) uri).length := by
  rw [broughtLink, Link.version?_setVersion, about_concat]
  by_cases hsame : uri.text = call.uri.text
  · rw [if_pos hsame, if_pos hsame, Call.about, Call.about, hsame, Link.counted,
      if_neg (Nat.succ_ne_zero _)]
  · rw [if_neg hsame, if_neg hsame, h]

theorem bring_of_writing {k : Nat} (hc : s.connections[h.connection]? = some c)
    (hwriting : c.writing = true) (hversion : c.link.version? h.call.uri = Link.counted k) :
    s.bring h =
      ({ s.setLink h.connection (broughtLink c.link h.call.uri (k + 1)) with
          holder := some { h with brought := true } },
        [.send h.connection (h.call.document (k + 1)), .proceed]) := by
  have htaken : s.writing? h.connection = true := by simp [writing?, hc, hwriting]
  unfold bring
  rw [link_eq hc, Link.sync_counted hversion]
  simp only [htaken, if_true]
  rfl

theorem pose_of_writing (hc : s.connections[h.connection]? = some c) (hwriting : c.writing = true) :
    s.pose h =
      ({ s.setLink h.connection (askedLink c.link) with
          holder := none
          waiting := s.waiting ++ [⟨h.connection, c.link.nextId, h.caller, false, none⟩] },
        [.send h.connection (h.call.request c.link.nextId)]) := by
  have htaken : s.writing? h.connection = true := by simp [writing?, hc, hwriting]
  unfold pose
  rw [link_eq hc]
  simp only [htaken, if_true]
  rfl

/-- Who has the connection and has sent nothing yet finds it ready. -/
theorem Speaks.ready_of_holder (hspeaks : Speaks processId s tasks n c stage calls turns log)
    (hcurrent : s.current = some n) (hholder : s.holder = some h) (hnew : h.brought = false) :
    stage = .ready := by
  cases stage with
  | greeted => exact absurd rfl (hspeaks.current hcurrent)
  | ready => rfl
  | half other =>
    obtain ⟨hother, -, hbrought⟩ := (hspeaks.held other).mp rfl
    obtain rfl := Option.some.inj (hholder.symm.trans hother)
    cases hnew.symm.trans hbrought

/-- The document of a call has been brought. -/
theorem Speaks.bring (hspeaks : Speaks processId s tasks n c .ready calls turns log)
    (hn : h.connection = n) (hwriting : c.writing = true) (hstarting : t.starting = none)
    (hcurrent : t.current = s.current) (hholder : t.holder = some { h with brought := true })
    (hwaiting : t.waiting = s.waiting) :
    Speaks processId t tasks n
      { c with link :=
        broughtLink c.link h.call.uri ((Call.about calls h.call.uri).length + 1) }
      (.half { h with brought := true }) (calls ++ [h.call]) turns
      (log ++ [h.call.document ((Call.about calls h.call.uri).length + 1)]) where
  talk := hspeaks.talk.bring { h with brought := true }
  current _ := Stage.noConfusion
  starting start hstart _ := by cases hstarting.symm.trans hstart
  held k := by
    rw [hholder]
    constructor
    · rintro ⟨⟩
      exact ⟨rfl, hn, rfl⟩
    · rintro ⟨⟨⟩, -⟩
      rfl
  made := hspeaks.made
  numbered := hspeaks.numbered
  versions _ := version?_broughtLink (hspeaks.versions hwriting) h.call
  asked := by rw [hwaiting]; exact hspeaks.asked
  said := by rw [hwaiting]; exact hspeaks.said
  closing w hw hk hclosing := by
    rw [hcurrent]
    exact ⟨(hspeaks.closing w (hwaiting ▸ hw) hk hclosing).1, Stage.noConfusion⟩

theorem Sound.bring (hsound : Sound processId s tasks sent) (hholder : s.holder = some h)
    (hnew : h.brought = false) :
    Sound processId (s.bring h).1 tasks (sent ++ sends (s.bring h).2) := by
  obtain ⟨hstarting, hcurrent, htask⟩ := hsound.holder h hholder
  cases htaken : s.writing? h.connection with
  | false =>
    have hfades : Fades s (s.setLink h.connection
        ((s.link h.connection).sync h.call.uri h.call.text).1) :=
      fades_setLink_of_blocked htaken (Link.sync_pending ..).2.ge
    have hleft := (hsound.fades hfades).leave (hfades.holder.trans hholder)
    unfold Server.bring
    simp only [htaken]
    exact hleft.idles ((Fades.refl _).idles rfl)
  | true =>
    obtain ⟨c, hc, hwriting⟩ := writing_lt htaken
    obtain ⟨stage, calls, turns, hspeaks⟩ := hsound.speaks _ c hc
    obtain rfl := hspeaks.ready_of_holder hcurrent hholder hnew
    rw [bring_of_writing hc hwriting (hspeaks.versions hwriting h.call.uri)]
    refine hsound.say hc (fun _ hk => hk) ?_ ?_ (fun _ hw => .inl hw)
      ⟨_, _, _, hspeaks.bring rfl hwriting hstarting rfl rfl rfl⟩
    · intro k hk
      rw [Option.some.inj (hk.symm.trans hholder)]
    · rintro k ⟨⟩
      exact ⟨rfl, hstarting, hcurrent, htask⟩

/-- Who waits for a new request is the only one to do so. -/
theorem Speaks.asked_next (hspeaks : Speaks processId s tasks n c stage calls turns log)
    {w v : Waiting} (hw : w.request = c.link.nextId) (hv : v ∈ s.waiting ++ [w])
    (hn : v.connection = n) :
    v.request < c.link.nextId + 1 ∧ ∀ t ∈ turns, t.id = v.request → t.caller = v.caller := by
  rcases List.mem_append.mp hv with hv | hv
  · obtain ⟨hlt, howner⟩ := hspeaks.asked v hv hn
    exact ⟨by omega, howner⟩
  · rw [List.mem_singleton.mp hv, hw]
    refine ⟨by omega, fun t ht hid => ?_⟩
    have := hspeaks.numbered t ht
    omega

/-- The request of a call has been sent, and its caller waits for the reply. -/
theorem Speaks.pose (hspeaks : Speaks processId s tasks n c (.half h) calls turns log)
    (hproper : h.call.Proper) (htask : tasks[h.caller]? = some (.call h.call))
    (hstarting : t.starting = none) (hcurrent : t.current = s.current) (hfree : t.holder = none)
    (hwaiting : t.waiting = s.waiting ++ [⟨n, c.link.nextId, h.caller, false, none⟩]) :
    Speaks processId t tasks n { c with link := askedLink c.link } .ready calls
      (turns ++ [⟨h.caller, c.link.nextId, h.call⟩]) (log ++ [h.call.request c.link.nextId]) where
  talk := hspeaks.talk.pose c.link.nextId hproper
  current _ := Stage.noConfusion
  starting start hstart _ := by cases hstarting.symm.trans hstart
  held k := iff_of_false Stage.noConfusion fun hk => by cases hfree.symm.trans hk.1
  made t ht := by
    rcases List.mem_append.mp ht with ht | ht
    · exact hspeaks.made t ht
    · rw [List.mem_singleton.mp ht]
      exact htask
  numbered t ht := by
    show t.id < c.link.nextId + 1
    rcases List.mem_append.mp ht with ht | ht
    · have := hspeaks.numbered t ht
      omega
    · rw [List.mem_singleton.mp ht]
      exact Int.lt_succ c.link.nextId
  versions := hspeaks.versions
  asked v hv hn := by
    rw [hwaiting] at hv
    obtain ⟨hlt, howner⟩ := hspeaks.asked_next rfl hv hn
    refine ⟨hlt, fun t ht hid => ?_⟩
    rcases List.mem_append.mp ht with ht | ht
    · exact howner t ht hid
    · rw [List.mem_singleton.mp ht] at hid ⊢
      rcases List.mem_append.mp hv with hv | hv
      · have := (hspeaks.asked v hv hn).1
        simp only at hid
        omega
      · rw [List.mem_singleton.mp hv]
  said v hv hn hclosing := by
    rw [hwaiting, List.mem_append, List.mem_singleton] at hv
    rcases hv with hv | rfl
    · obtain ⟨t, ht, hrest⟩ := hspeaks.said v hv hn hclosing
      exact ⟨t, List.mem_append_left _ ht, hrest⟩
    · exact ⟨_, List.mem_append_right _ (List.mem_singleton_self _), rfl, rfl⟩
  closing v hv hn hclosing := by
    rw [hwaiting, List.mem_append, List.mem_singleton] at hv
    rcases hv with hv | rfl
    · rw [hcurrent]
      exact ⟨(hspeaks.closing v hv hn hclosing).1, Stage.noConfusion⟩
    · cases hclosing

theorem Sound.pose (hsound : Sound processId s tasks sent) (hholder : s.holder = some h)
    (hbrought : h.brought = true) :
    Sound processId (s.pose h).1 tasks (sent ++ sends (s.pose h).2) := by
  obtain ⟨hstarting, hcurrent, htask⟩ := hsound.holder h hholder
  cases htaken : s.writing? h.connection with
  | false =>
    have hfades : Fades s (s.setLink h.connection { s.link h.connection with
        nextId := (s.link h.connection).nextId + 1 }) :=
      fades_setLink_of_blocked htaken (Int.le_add_one (Int.le_refl _))
    have hleft := (hsound.fades hfades).leave (hfades.holder.trans hholder)
    unfold Server.pose
    simp only [htaken]
    exact hleft.idles ((Fades.refl _).idles rfl)
  | true =>
    obtain ⟨c, hc, hwriting⟩ := writing_lt htaken
    obtain ⟨stage, calls, turns, hspeaks⟩ := hsound.speaks _ c hc
    obtain rfl := (hspeaks.held h).mpr ⟨hholder, rfl, hbrought⟩
    have hproper := hsound.proper h.call (List.mem_of_getElem? htask)
    rw [pose_of_writing hc hwriting]
    refine hsound.say hc (fun _ hk => hk) ?_ (fun _ hnone => by cases hnone) ?_
      ⟨_, _, _, hspeaks.pose hproper htask hstarting rfl rfl rfl⟩
    · intro k hk
      rw [Option.some.inj (hk.symm.trans hholder)]
    · intro w hw
      rcases List.mem_append.mp hw with hw | hw
      · exact .inl hw
      · exact .inr (List.mem_singleton.mp hw ▸ rfl)

theorem Sound.proceed (hsound : Sound processId s tasks sent) :
    Sound processId s.proceed.1 tasks (sent ++ sends s.proceed.2) := by
  unfold Server.proceed
  split
  · exact hsound.idles ((Fades.refl s).idles rfl)
  · rename_i h hholder
    split
    · rename_i hbrought
      exact hsound.pose hholder hbrought
    · rename_i hnew
      exact hsound.bring hholder (Bool.eq_false_of_not_eq_true hnew)

/-- The last request of a connection belongs to no document. -/
theorem Sound.release (h : Sound processId s tasks sent) (hfree : s.holder = none) (caller : Nat) :
    Sound processId (s.release caller).1 tasks (sent ++ sends (s.release caller).2) := by
  unfold Server.release
  cases hcurrent : s.current with
  | none => exact h.idles ((Fades.refl s).idles rfl)
  | some n =>
    cases htaken : s.writing? n with
    | false =>
      have hblocked : ({ s with current := none } : Server).writing? n = false := htaken
      have hgiven : Sound processId { s with current := none } tasks sent :=
        { h with
          current := fun _ hk => by cases hk
          holder := fun k hk => by cases hfree.symm.trans hk
          speaks := fun k c hc => by
            obtain ⟨stage, calls, turns, hspeaks⟩ := h.speaks k c hc
            exact ⟨stage, calls, turns, hspeaks.keeps (fun hk => by cases hk) rfl
              (fun _ _ _ => Iff.rfl) fun w hw _ => hw⟩ }
      simp only [hblocked]
      exact hgiven.idles ((Fades.refl _).idles rfl)
    | true =>
      have htaken' : ({ s with current := none } : Server).writing? n = true := htaken
      simp only [htaken', if_true]
      obtain ⟨c, hc, hwriting⟩ := writing_lt htaken
      obtain ⟨stage, calls, turns, hspeaks⟩ := h.speaks n c hc
      have hlink : ({ s with current := none } : Server).link n = c.link := link_eq hc
      have hallows : s.Allows n (Message.request c.link.nextId "shutdown" .null) :=
        .inr ⟨aside_request rfl _ _, fun k hk => by cases hfree.symm.trans hk⟩
      rw [hlink]
      refine h.say hc (fun _ hk => by cases hk) (fun k hk => by cases hfree.symm.trans hk)
        (fun k hk => by cases hfree.symm.trans hk) ?_ ⟨stage, calls, turns, ?_⟩
      · intro w hw
        rcases List.mem_append.mp hw with hw | hw
        · exact .inl hw
        · exact .inr (List.mem_singleton.mp hw ▸ rfl)
      · exact {
          talk := hspeaks.talk.aside (hspeaks.allows hallows)
          current := fun hk => by cases hk
          starting := hspeaks.starting
          held := hspeaks.held
          made := hspeaks.made
          numbered := fun t ht => Int.lt_add_one_of_le (Int.le_of_lt (hspeaks.numbered t ht))
          versions := hspeaks.versions
          asked := fun w hw hn => hspeaks.asked_next rfl hw hn
          said := fun w hw hn hclosing => by
            rcases List.mem_append.mp hw with hw | hw
            · exact hspeaks.said w hw hn hclosing
            · rw [List.mem_singleton.mp hw] at hclosing
              cases hclosing
          closing := fun w _ _ _ => ⟨fun hk => (by cases hk), hspeaks.current hcurrent⟩ }

/-- The greeting has been answered. -/
theorem Sound.ready (h : Sound processId s tasks sent) {start : Starting}
    (hstart : s.starting = some start) (htaken : s.writing? start.connection = true) :
    Sound processId { s with starting := none, current := some start.connection } tasks
      (sent ++ [(start.connection, Request.initialized)]) := by
  obtain ⟨c, hc, -⟩ := writing_lt htaken
  have hlt : start.connection < s.connections.length := (List.getElem?_eq_some_iff.mp hc).1
  have hfree : ∀ k, s.holder ≠ some k := by
    intro k hk
    cases hstart.symm.trans (h.holder k hk).1
  exact {
    process := h.process
    proper := h.proper
    queue := h.queue
    starting := fun _ hnone => by cases hnone
    current := fun k hk => by
      cases hk
      exact hlt
    holder := fun k hk => absurd hk (hfree k)
    waiting := h.waiting
    silent := fun k hk => by
      change s.connections.length ≤ k at hk
      rw [sentOn_append, h.silent k hk, sentOn_cons, if_neg (by omega)]
      rfl
    speaks := fun k d hd => by
      obtain ⟨stage, calls, turns, hspeaks⟩ := h.speaks k d hd
      rw [sentOn_append, sentOn_cons, sentOn_nil]
      by_cases hk : start.connection = k
      · obtain rfl := hspeaks.starting start hstart hk
        obtain ⟨rfl, rfl⟩ := hspeaks.talk.nil_of_greeted
        rw [if_pos hk]
        exact ⟨.ready, [], [], { hspeaks with
          talk := hspeaks.talk.ready
          current := fun _ => Stage.noConfusion
          starting := fun _ hnone => by cases hnone
          held := fun other => iff_of_false Stage.noConfusion fun hother => hfree other hother.1
          closing := fun w hw hn hclosing => absurd rfl (hspeaks.closing w hw hn hclosing).2 }⟩
      · rw [if_neg hk, List.append_nil]
        exact ⟨stage, calls, turns, { hspeaks with
          current := fun hcurrent => absurd (Option.some.inj hcurrent) hk
          starting := fun _ hnone => by cases hnone
          closing := fun w hw hn hclosing =>
            ⟨fun hcurrent => hk (Option.some.inj hcurrent), (hspeaks.closing w hw hn hclosing).2⟩ }⟩ }

theorem Sound.started (h : Sound processId s tasks sent) {start : Starting}
    (hstart : s.starting = some start) (reply : Reply) :
    Sound processId (s.started start reply).1 tasks (sent ++ sends (s.started start reply).2) := by
  have hfades : Fades s { s with starting := none } :=
    { Fades.refl s with starting := fun _ hnone => by cases hnone }
  unfold Server.started
  cases reply with
  | error failure => exact h.idles (hfades.idles rfl)
  | ok value =>
    cases htaken : ({ s with starting := none } : Server).writing? start.connection with
    | false =>
      simp only [htaken]
      exact h.idles (hfades.idles rfl)
    | true =>
      simp only [htaken, if_true]
      have hfree : s.holder = none := by
        refine Option.eq_none_iff_forall_ne_some.mpr fun k hk => ?_
        cases hstart.symm.trans (h.holder k hk).1
      exact (h.ready hstart htaken).hold rfl hfree rfl (h.starting start hstart)

theorem Sound.relaunch (h : Sound processId s tasks sent) (hfree : s.holder = none)
    (failure : Option OsError) {caller : Nat} {call : Call}
    (htask : tasks[caller]? = some (.call call)) :
    Sound processId (s.relaunch failure caller call).1 tasks
      (sent ++ sends (s.relaunch failure caller call).2) := by
  unfold Server.relaunch
  cases failure with
  | none => exact h.launch hfree htask
  | some cause => exact h.idles ((Fades.refl s).idles rfl)

/-- Who enters gives the connection up, takes it, or has the server started. -/
theorem enter_cases (s : Server) (failure : Option OsError) :
    s.enter failure = (s, []) ∨
      s.starting = none ∧ s.holder = none ∧ ∃ ticket queue, s.queue = ticket :: queue ∧
        (ticket.task = .shutdown ∧
            s.enter failure = ({ s with queue } : Server).release ticket.caller ∨
          ∃ call, ticket.task = .call call ∧
            ((∃ n, s.current = some n ∧ s.alive? n = true ∧ s.enter failure =
                (({ s with queue } : Server).hold n ticket.caller call, [.proceed])) ∨
              (∀ n, s.current = some n → s.alive? n = false) ∧
              s.enter failure = ({ s with queue } : Server).relaunch failure ticket.caller call)) := by
  unfold enter
  split
  · exact .inl rfl
  · rename_i hfree
    obtain ⟨hstarting, hholder⟩ : s.starting = none ∧ s.holder = none := by simpa using hfree
    cases hqueue : s.queue with
    | nil => exact .inl rfl
    | cons ticket queue =>
      refine .inr ⟨hstarting, hholder, ticket, queue, rfl, ?_⟩
      cases htask : ticket.task with
      | shutdown => exact .inl ⟨rfl, by simp [htask]⟩
      | call call =>
        refine .inr ⟨call, rfl, ?_⟩
        cases hcurrent : s.current with
        | none => exact .inr ⟨fun _ hk => (by cases hk), by simp [htask]⟩
        | some n =>
          cases halive : s.alive? n with
          | true =>
            refine .inl ⟨n, rfl, halive, ?_⟩
            rw [alive?] at halive
            simp [htask, alive?, halive]
          | false =>
            refine .inr ⟨fun k hk => Option.some.inj hk ▸ halive, ?_⟩
            rw [alive?] at halive
            simp [htask, alive?, halive]

theorem Sound.enter (h : Sound processId s tasks sent) (failure : Option OsError) :
    Sound processId (s.enter failure).1 tasks (sent ++ sends (s.enter failure).2) := by
  rcases enter_cases s failure with heq | ⟨hstarting, hfree, ticket, queue, hqueue, hcases⟩
  · rw [heq]
    exact h.idles ((Fades.refl s).idles rfl)
  · have hfades : Fades s { s with queue } :=
      { Fades.refl s with queue := fun x hx => hqueue ▸ List.mem_cons_of_mem _ hx }
    have hticket := h.queue ticket (hqueue ▸ List.mem_cons_self)
    rcases hcases with ⟨-, heq⟩ | ⟨call, htask, ⟨n, hcurrent, -, heq⟩ | ⟨-, heq⟩⟩ <;> rw [heq]
    · exact (h.fades hfades).release hfree ticket.caller
    · have hheld := (h.fades hfades).hold hstarting hfree hcurrent (htask ▸ hticket)
      exact hheld.idles ((Fades.refl _).idles rfl)
    · exact (h.fades hfades).relaunch hfree failure (htask ▸ hticket)

theorem Sound.resume (h : Sound processId s tasks sent) (n : Nat) (id : Int) :
    Sound processId (s.resume n id).1 tasks (sent ++ sends (s.resume n id).2) := by
  have hsame : Sound processId s tasks (sent ++ sends []) := h.idles ((Fades.refl s).idles rfl)
  unfold Server.resume
  split
  · rename_i start hstart
    split
    · exact h.started (Option.filter_eq_some_iff.mp hstart).1 _
    · exact hsame
  · split
    · rename_i w hw
      split
      · exact h.woken (List.mem_of_find?_eq_some hw) _
      · exact hsame
    · exact hsame

/-- **Every step keeps the conversations in order.** -/
theorem Sound.act (h : Sound processId s tasks sent) {action : ServerAction}
    (hfair : ∀ ticket, action = .ask ticket → tasks[ticket.caller]? = some ticket.task) :
    Sound processId (s.act action).1 tasks (sent ++ sends (s.act action).2) := by
  cases action with
  | ask ticket =>
    have hasked : Sound processId { s with queue := s.queue ++ [ticket] } tasks sent :=
      { h with
        queue := fun other hother => by
          rcases List.mem_append.mp hother with hother | hother
          · exact h.queue other hother
          · rw [List.mem_singleton.mp hother]
            exact hfair ticket rfl
        speaks := fun n c hc => by
          obtain ⟨stage, calls, turns, hspeaks⟩ := h.speaks n c hc
          exact ⟨stage, calls, turns, { hspeaks with }⟩ }
    exact hasked.idles ((Fades.refl _).idles rfl)
  | enter failure => exact h.enter failure
  | proceed => exact h.proceed
  | resume n id => exact h.resume n id
  | bytes n bytes =>
    refine h.idles (idles_read s n fun c => ?_)
    split <;> exact .refl c
  | ended n => exact h.idles (idles_read s n fun c => .refl c)
  | blocked n =>
    have hfades : Fades s (s.modify n fun c => { c with writing := false }) :=
      fades_modify s n fun c _ => ⟨Int.le_refl _, fun hwriting => by cases hwriting⟩
    exact h.idles (hfades.idles rfl)
  | died n =>
    have hfades : Fades s (s.modify n fun c => { c with alive := false }) :=
      fades_modify s n fun c _ => .refl c
    exact h.idles (hfades.idles rfl)
  | expire n id => exact h.idles (idles_expire s n id s.limit)

end Server

/-! ## Runs -/

/-- What happens around the server. -/
inductive Move where
  | publish (owner : Uri) (text : String)
  | complete (request : CompletionRequest)
  | definition (request : PositionRequest)
  | hover (request : PositionRequest)
  | shutdown
  | step (action : ServerAction)

/-- The server and the virtual documents.  A caller is known by the place of its task among all tasks
asked of the server. -/
structure Scene where
  server : Server
  documents : VirtualDocument.Registry
  tasks : List Task
  sent : List (Nat × Json)

namespace Scene

/-- The task that a move asks of the server.  Completion takes the text of its virtual document with
it, as it is now. -/
def task? (x : Scene) : Move → Option Task
  | .complete request => (Call.ofCompletion? x.documents request).map .call
  | .definition request => some (.call (.definition request))
  | .hover request => some (.call (.hover request))
  | .shutdown => some .shutdown
  | _ => none

def act (x : Scene) (action : ServerAction) : Scene :=
  { x with
    server := (x.server.act action).1
    sent := x.sent ++ sends (x.server.act action).2 }

def ask (x : Scene) (task : Task) : Scene :=
  { x.act (.ask ⟨x.tasks.length, task⟩) with tasks := x.tasks ++ [task] }

def move (x : Scene) (m : Move) : Scene :=
  match m with
  | .publish owner text => { x with documents := x.documents.publish owner text }
  | .step (.ask _) => x   -- tasks are asked by the other moves
  | .step action => x.act action
  | m =>
    match x.task? m with
    | some task => x.ask task
    | none => x

/-- A server that has not been started, after some moves. -/
def after (program : String) (limit : Nat) (processId : Json) (moves : List Move) : Scene :=
  moves.foldl move ⟨.idle program limit processId, .empty, [], []⟩

theorem after_concat (program : String) (limit : Nat) (processId : Json) (moves : List Move)
    (m : Move) :
    after program limit processId (moves ++ [m]) = (after program limit processId moves).move m := by
  simp only [after, List.foldl_append, List.foldl_cons, List.foldl_nil]

/-- A move publishes a text, lets the server take a step, asks a task of it, or does nothing. -/
theorem move_cases (x : Scene) (m : Move) :
    (∃ documents, x.move m = { x with documents } ∧ x.task? m = none) ∨
      (∃ action, m = .step action ∧ (∀ ticket, action ≠ .ask ticket) ∧ x.move m = x.act action ∧
        x.task? m = none) ∨
      ∃ task, x.task? m = some task ∧ x.move m = x.ask task := by
  cases m with
  | publish owner text => exact .inl ⟨_, rfl, rfl⟩
  | complete request =>
    cases htask : x.task? (.complete request) with
    | none => exact .inl ⟨x.documents, by simp [move, htask], rfl⟩
    | some task => exact .inr (.inr ⟨task, rfl, by simp [move, htask]⟩)
  | definition request => exact .inr (.inr ⟨_, rfl, rfl⟩)
  | hover request => exact .inr (.inr ⟨_, rfl, rfl⟩)
  | shutdown => exact .inr (.inr ⟨_, rfl, rfl⟩)
  | step action =>
    cases action with
    | ask ticket => exact .inl ⟨x.documents, rfl, rfl⟩
    | _ => exact .inr (.inl ⟨_, rfl, by simp, rfl, rfl⟩)

theorem proper_of_task? {x : Scene} {m : Move} {call : Call} (h : x.task? m = some (.call call)) :
    call.Proper := by
  unfold task? at h
  split at h
  · obtain ⟨call', hcall, htask⟩ := Option.map_eq_some_iff.mp h
    obtain ⟨text, -, rfl⟩ := Option.map_eq_some_iff.mp hcall
    cases htask
    simp [Call.Proper, Link.address?, Request.completionParams, Request.positionFields,
      Json.get?_object, Json.asString?]
  · cases h
    simp [Call.Proper, Link.address?, Call.definition, Call.ofPosition, Request.positionParams,
      Request.positionFields, Json.get?_object, Json.asString?]
  · cases h
    simp [Call.Proper, Link.address?, Call.hover, Call.ofPosition, Request.positionParams,
      Request.positionFields, Json.get?_object, Json.asString?]
  · cases h
  · cases h

/-- Every connection of a scene carries a conversation in order. -/
abbrev Sound (processId : Json) (x : Scene) : Prop :=
  x.server.Sound processId x.tasks x.sent

variable {x : Scene} {processId : Json}

theorem Sound.ask (h : x.Sound processId) {task : Task}
    (hproper : ∀ call, task = .call call → call.Proper) : (x.ask task).Sound processId := by
  have hmore : ∀ {i : Nat} {known : Task}, x.tasks[i]? = some known →
      (x.tasks ++ [task])[i]? = some known := by
    intro i known hknown
    rw [List.getElem?_append_left (List.getElem?_eq_some_iff.mp hknown).1]
    exact hknown
  have hgrown : x.server.Sound processId (x.tasks ++ [task]) x.sent :=
    { h with
      proper := by
        intro call hcall
        rcases List.mem_append.mp hcall with hcall | hcall
        · exact h.proper call hcall
        · exact hproper call (List.mem_singleton.mp hcall).symm
      queue := fun ticket hticket => hmore (h.queue ticket hticket)
      starting := fun start hstart => hmore (h.starting start hstart)
      holder := fun k hk => ⟨(h.holder k hk).1, (h.holder k hk).2.1, hmore (h.holder k hk).2.2⟩
      speaks := by
        intro n c hc
        obtain ⟨stage, calls, turns, hspeaks⟩ := h.speaks n c hc
        exact ⟨stage, calls, turns,
          { hspeaks with made := fun t ht => hmore (hspeaks.made t ht) }⟩ }
  refine Server.Sound.act hgrown ?_
  intro ticket hticket
  cases hticket
  exact List.getElem?_concat_length

theorem Sound.move (h : x.Sound processId) (m : Move) : (x.move m).Sound processId := by
  obtain ⟨documents, heq, -⟩ | ⟨action, -, hask, heq, -⟩ | ⟨task, htask, heq⟩ := x.move_cases m <;>
    rw [heq]
  · exact h
  · exact Server.Sound.act h fun ticket hticket => absurd hticket (hask ticket)
  · exact h.ask fun call hcall => proper_of_task? (hcall ▸ htask)

theorem sound_after (program : String) (limit : Nat) (processId : Json) (moves : List Move) :
    (after program limit processId moves).Sound processId := by
  induction moves using List.reverseRecOn with
  | nil => exact Server.sound_idle program limit processId
  | append_singleton moves m ih =>
    rw [after_concat]
    exact ih.move m

/-- Every task was asked by a move, and its caller's number is that of the tasks before. -/
theorem asked_by (program : String) (limit : Nat) (processId : Json) (moves : List Move)
    {caller : Nat} {task : Task}
    (h : (after program limit processId moves).tasks[caller]? = some task) :
    ∃ earlier m later, moves = earlier ++ m :: later ∧
      (after program limit processId earlier).task? m = some task ∧
      (after program limit processId earlier).tasks.length = caller := by
  induction moves using List.reverseRecOn with
  | nil => simp [after] at h
  | append_singleton moves m ih =>
    rw [after_concat] at h
    have hearlier : (after program limit processId moves).tasks[caller]? = some task →
        ∃ earlier m' later, moves ++ [m] = earlier ++ m' :: later ∧
          (after program limit processId earlier).task? m' = some task ∧
          (after program limit processId earlier).tasks.length = caller := by
      intro hold
      obtain ⟨earlier, m', later, rfl, hrest⟩ := ih hold
      exact ⟨earlier, m', later ++ [m], by simp, hrest⟩
    obtain ⟨documents, heq, -⟩ | ⟨action, -, -, heq, -⟩ | ⟨task', htask, heq⟩ :=
      (after program limit processId moves).move_cases m <;> rw [heq] at h
    · exact hearlier h
    · exact hearlier h
    · change ((after program limit processId moves).tasks ++ [task'])[caller]? = some task at h
      rcases Nat.lt_trichotomy caller (after program limit processId moves).tasks.length with
        hlt | rfl | hgt
      · rw [List.getElem?_append_left hlt] at h
        exact hearlier h
      · rw [List.getElem?_concat_length] at h
        exact ⟨moves, m, [], rfl, by rw [htask, h], rfl⟩
      · rw [List.getElem?_eq_none (by simp; omega)] at h
        cases h

end Scene

-- Two calls, the second interrupted by the end of the first one's time, then a new process.
example :
    let request : PositionRequest := ⟨⟨"file", "///a"⟩, "a", ⟨0, 0⟩⟩
    let answer := Text.Utf8.bytesOf "Content-Length: 19\r\n\r\n\x7b\"id\":1,\"result\":1\x7d"
    let scene := Scene.after "server" 150 .null
      [.hover request, .step (.enter none), .step (.bytes 0 answer), .step (.resume 0 1),
        .step .proceed, .step .proceed, .hover request, .step (.enter none), .step .proceed,
        .step (.expire 0 2), .step .proceed, .step (.died 0), .hover request, .step (.enter none)]
    let told := fun n => (sentOn scene.sent n).map fun m => (Link.methodOf? m, Link.versionOf? m)
    told 0 = [(some "initialize", none), (some "initialized", none),
        (some "textDocument/didOpen", some 1), (some "textDocument/hover", none),
        (some "textDocument/didChange", some 2), (some "$/cancelRequest", none),
        (some "textDocument/hover", none)] ∧
      told 1 = [(some "initialize", none)] := by
  decide +kernel

end DialectBridge.Host
