import DialectBridge.Proofs.Host.Talk

/-!
# Steps that no conversation notices

Most of what happens to a server leaves its conversations alone: callers and processes are lost,
replies come in, requests expire.  What is sent on such occasions may be sent at any time.

* `Fades` — the changes of a server that no conversation notices;
* `Idles` — a step that fades, and sends interjections only;
* `idles_readInbox`, `idles_expire` — the steps of this kind;
* `fades_woken`, `sends_woken` — who goes on with its reply may tell a connection that it is given up.
-/

namespace DialectBridge.Host

/-! ## Messages of a step -/

/-- The messages that a step sends, with their connections. -/
def sends (output : List ServerOutput) : List (Nat × Json) :=
  output.filterMap fun
    | .send n message => some (n, message)
    | _ => none

/-- The messages sent on a connection. -/
def sentOn (sent : List (Nat × Json)) (n : Nat) : List Json :=
  (sent.filter fun entry => entry.1 = n).map (·.2)

@[simp] theorem sends_append (output more : List ServerOutput) :
    sends (output ++ more) = sends output ++ sends more :=
  List.filterMap_append

@[simp] theorem sentOn_append (sent more : List (Nat × Json)) (n : Nat) :
    sentOn (sent ++ more) n = sentOn sent n ++ sentOn more n := by
  simp [sentOn]

@[simp] theorem sentOn_cons (m : Nat) (message : Json) (sent : List (Nat × Json)) (n : Nat) :
    sentOn ((m, message) :: sent) n = if m = n then message :: sentOn sent n else sentOn sent n := by
  by_cases h : m = n <;> simp [sentOn, h]

@[simp] theorem sentOn_nil (n : Nat) : sentOn [] n = [] := rfl

theorem aside_exit : Aside Request.exit := by
  simp [Aside, Link.documentOf?, Request.exit]

theorem aside_request {params : Json} (h : Link.address? params = none) (id : Int)
    (method : String) : Aside (Message.request id method params) := by
  simp [Aside, h]

/-- The first message of a connection. -/
def greeting (processId : Json) : Json :=
  Message.request 1 "initialize" (Request.initializeParams processId)

theorem aside_greeting (processId : Json) : Aside (greeting processId) :=
  aside_request (by simp [Link.address?, Request.initializeParams, Json.get?_object]) _ _

namespace Server

/-- What a connection may become while its conversation stands still.  Numbers may be used up, and
versions count only as long as messages are taken. -/
def Lags (c d : Connection) : Prop :=
  c.link.nextId ≤ d.link.nextId ∧
    (d.writing = true → c.writing = true ∧ d.link.versions = c.link.versions)

/-- The server has lost callers or processes, or has replies for its callers. -/
structure Fades (s t : Server) : Prop where
  processId : t.processId = s.processId
  queue : ∀ ticket ∈ t.queue, ticket ∈ s.queue
  starting : ∀ b, t.starting = some b → ∃ a, s.starting = some a ∧ b.connection = a.connection ∧
    b.caller = a.caller ∧ b.call = a.call
  current : t.current = s.current
  holder : t.holder = s.holder
  waiting : ∀ v ∈ t.waiting, ∃ w ∈ s.waiting, v.connection = w.connection ∧ v.request = w.request ∧
    v.caller = w.caller ∧ v.closing = w.closing
  length : t.connections.length = s.connections.length
  connections : ∀ (n : Nat) (d : Connection), t.connections[n]? = some d →
    ∃ c, s.connections[n]? = some c ∧ Lags c d

variable {s t u : Server} {n : Nat}

theorem Lags.refl (c : Connection) : Lags c c :=
  ⟨Int.le_refl _, fun h => ⟨h, rfl⟩⟩

theorem Fades.refl (s : Server) : Fades s s where
  processId := rfl
  queue _ h := h
  starting b h := ⟨b, h, rfl, rfl, rfl⟩
  current := rfl
  holder := rfl
  waiting v h := ⟨v, h, rfl, rfl, rfl, rfl⟩
  length := rfl
  connections _ d h := ⟨d, h, .refl d⟩

theorem Fades.trans (h : Fades s t) (h' : Fades t u) : Fades s u where
  processId := h'.processId.trans h.processId
  queue ticket hmem := h.queue ticket (h'.queue ticket hmem)
  starting c hc := by
    obtain ⟨b, hb, hconn, hcaller, hcall⟩ := h'.starting c hc
    obtain ⟨a, ha, hconn', hcaller', hcall'⟩ := h.starting b hb
    exact ⟨a, ha, hconn.trans hconn', hcaller.trans hcaller', hcall.trans hcall'⟩
  current := h'.current.trans h.current
  holder := h'.holder.trans h.holder
  waiting v hv := by
    obtain ⟨w, hw, hconn, hreq, hcaller, hclosing⟩ := h'.waiting v hv
    obtain ⟨x, hx, hconn', hreq', hcaller', hclosing'⟩ := h.waiting w hw
    exact ⟨x, hx, hconn.trans hconn', hreq.trans hreq', hcaller.trans hcaller',
      hclosing.trans hclosing'⟩
  length := h'.length.trans h.length
  connections n e he := by
    obtain ⟨d, hd, hid, hwriting⟩ := h'.connections n e he
    obtain ⟨c, hc, hid', hwriting'⟩ := h.connections n d hd
    refine ⟨c, hc, hid'.trans hid, fun hw => ?_⟩
    obtain ⟨hw, hversions⟩ := hwriting hw
    exact ⟨(hwriting' hw).1, hversions.trans (hwriting' hw).2⟩

theorem fades_modify (s : Server) (n : Nat) {f : Connection → Connection}
    (hf : ∀ c, s.connections[n]? = some c → Lags c (f c)) : Fades s (s.modify n f) where
  processId := rfl
  queue _ h := h
  starting b h := ⟨b, h, rfl, rfl, rfl⟩
  current := rfl
  holder := rfl
  waiting v h := ⟨v, h, rfl, rfl, rfl, rfl⟩
  length := List.length_modify ..
  connections k d hd := by
    unfold modify at hd
    rw [List.getElem?_modify] at hd
    obtain ⟨c, hc, rfl⟩ := Option.map_eq_some_iff.mp hd
    refine ⟨c, hc, ?_⟩
    by_cases hk : n = k
    · subst hk
      simpa using hf c hc
    · simpa [hk] using Lags.refl c

theorem link_eq {c : Connection} (h : s.connections[n]? = some c) : s.link n = c.link := by
  simp [link, h]

theorem fades_setLink (s : Server) (n : Nat) {link : Link} (hid : (s.link n).nextId = link.nextId)
    (hversions : link.versions = (s.link n).versions) : Fades s (s.setLink n link) := by
  apply fades_modify
  intro c hc
  rw [link_eq hc] at hid hversions
  exact ⟨hid.le, fun h => ⟨h, hversions⟩⟩

theorem fades_deliver (n : Nat) (s : Server) (settled : Int × Reply) :
    Fades s (deliver n s settled) where
  processId := rfl
  queue _ h := h
  starting b h := by
    obtain ⟨a, ha, rfl⟩ := Option.map_eq_some_iff.mp h
    refine ⟨a, ha, ?_⟩
    split <;> exact ⟨rfl, rfl, rfl⟩
  current := rfl
  holder := rfl
  waiting v h := by
    obtain ⟨w, hw, rfl⟩ := List.mem_map.mp h
    refine ⟨w, hw, ?_⟩
    split <;> exact ⟨rfl, rfl, rfl, rfl⟩
  length := rfl
  connections _ d h := ⟨d, h, .refl d⟩

theorem fades_deliverAll (n : Nat) (s : Server) (settled : List (Int × Reply)) :
    Fades s (settled.foldl (deliver n) s) := by
  induction settled generalizing s with
  | nil => exact .refl s
  | cons first rest ih => exact (fades_deliver n s first).trans (ih _)

/-- A step that no conversation notices: the server fades, and sends interjections only. -/
def Idles (s : Server) (done : Server × List ServerOutput) : Prop :=
  Fades s done.1 ∧ ∀ entry ∈ sends done.2, entry.1 < s.connections.length ∧ Interjection entry.2

theorem Fades.idles {output : List ServerOutput} (h : Fades s t) (hsends : sends output = []) :
    Idles s (t, output) :=
  ⟨h, by simp [hsends]⟩

theorem Fades.andThen {done : Server × List ServerOutput} (h : Fades s t) (h' : Idles t done) :
    Idles s done := by
  refine ⟨h.trans h'.1, ?_⟩
  rw [← h.length]
  exact h'.2

theorem Idles.trans {first second : List ServerOutput} (h : Idles s (t, first))
    (h' : Idles t (u, second)) : Idles s (u, first ++ second) := by
  refine ⟨h.1.trans h'.1, ?_⟩
  intro entry hentry
  rw [sends_append] at hentry
  rcases List.mem_append.mp hentry with hentry | hentry
  · exact h.2 entry hentry
  · rw [← h.1.length]
    exact h'.2 entry hentry

theorem writing_lt (h : s.writing? n = true) : ∃ c, s.connections[n]? = some c ∧ c.writing = true := by
  unfold writing? at h
  cases hc : s.connections[n]? with
  | none => simp [hc] at h
  | some c => exact ⟨c, rfl, by simpa [hc] using h⟩

theorem sends_sendIf {message : Json} {entry : Nat × Json}
    (h : entry ∈ sends (s.sendIf n message)) :
    entry = (n, message) ∧ n < s.connections.length := by
  unfold sendIf at h
  split at h
  · rename_i hwriting
    obtain ⟨c, hc, -⟩ := writing_lt hwriting
    exact ⟨by simpa [sends] using h, (List.getElem?_eq_some_iff.mp hc).1⟩
  · simp [sends] at h

theorem idles_takeOver (s : Server) (n : Nat) {link : Link} {effect : LinkEffect}
    (hid : (s.link n).nextId = link.nextId) (hversions : link.versions = (s.link n).versions)
    (hsend : ∀ m ∈ effect.send, Interjection m) : Idles s (s.takeOver n link effect) := by
  have hfades : Fades s (effect.settled.foldl (deliver n) (s.setLink n link)) :=
    (fades_setLink s n hid hversions).trans (fades_deliverAll n _ _)
  refine ⟨hfades, ?_⟩
  intro entry hentry
  simp only [takeOver, sends_append, List.mem_append] at hentry
  rcases hentry with hentry | hentry
  · unfold sends at hentry
    rw [List.filterMap_flatMap] at hentry
    obtain ⟨m, hm, hentry⟩ := List.mem_flatMap.mp hentry
    obtain ⟨rfl, hn⟩ := sends_sendIf hentry
    exact ⟨hfades.length ▸ hn, hsend m hm⟩
  · simp [sends] at hentry

theorem idles_receive (s : Server) (n : Nat) (message : Json) :
    Idles s (s.takeOver n ((s.link n).receive message).1 ((s.link n).receive message).2) := by
  obtain ⟨id, -, -, h⟩ | ⟨id, -, -, h⟩ | ⟨-, -, h⟩ := Link.receive_cases (s.link n) message <;> rw [h]
  · exact idles_takeOver s n rfl rfl fun m hm =>
      .inr ⟨id, List.mem_singleton.mp hm⟩
  · unfold Link.settle
    split <;> exact idles_takeOver s n rfl rfl (fun m hm => absurd hm List.not_mem_nil)
  · exact idles_takeOver s n rfl rfl fun m hm => absurd hm List.not_mem_nil

theorem idles_finish (s : Server) (n : Nat) :
    Idles s (s.takeOver n (s.link n).finish.1 (s.link n).finish.2) := by
  refine idles_takeOver s n (by rfl) (by rfl) ?_
  intro m hm
  exact absurd hm List.not_mem_nil

theorem idles_stopReading (s : Server) (n : Nat) : Idles s (s.stopReading n) := by
  have hmodify : Fades s (s.modify n fun c => { c with reading := false, inbox := [] }) :=
    fades_modify s n fun c _ => .refl c
  exact hmodify.andThen (idles_finish _ n)

theorem idles_readInbox (n fuel : Nat) (s : Server) : Idles s (readInbox n fuel s) := by
  induction fuel generalizing s with
  | zero => exact (Fades.refl s).idles rfl
  | succ fuel ih =>
    unfold readInbox
    split
    · exact (Fades.refl s).idles rfl
    · split
      · exact (Fades.refl s).idles rfl
      · split
        · exact (Fades.refl s).idles rfl
        · exact idles_stopReading s n
        · exact idles_stopReading s n
        · rename_i value rest _
          have hmodify : Fades s (s.modify n fun c => { c with inbox := rest }) :=
            fades_modify s n fun c _ => .refl c
          exact hmodify.andThen ((idles_receive _ n value).trans (ih _))

theorem idles_read {f : Connection → Connection} (s : Server) (n : Nat) (hf : ∀ c, Lags c (f c)) :
    Idles s ((s.modify n f).read n) :=
  (fades_modify s n fun c _ => hf c).andThen (idles_readInbox ..)

theorem idles_expire (s : Server) (n : Nat) (id : Int) (limit : Nat) :
    Idles s (s.takeOver n ((s.link n).expire id limit).1 ((s.link n).expire id limit).2) := by
  unfold Link.expire
  split
  · exact idles_takeOver s n rfl rfl fun m hm =>
      .inl ⟨id, List.mem_singleton.mp hm⟩
  · exact idles_takeOver s n rfl rfl fun m hm => absurd hm List.not_mem_nil

theorem fades_woken (s : Server) (w : Waiting) (reply : Reply) : Fades s (s.woken w reply).1 := by
  have hfades : Fades s { s with waiting := s.waiting.filter fun other =>
      !(other.connection = w.connection && other.request = w.request) } :=
    { Fades.refl s with waiting := fun v hv => ⟨v, (List.mem_filter.mp hv).1, rfl, rfl, rfl, rfl⟩ }
  unfold woken
  split <;> exact hfades

theorem sends_woken {w : Waiting} {reply : Reply} {entry : Nat × Json}
    (h : entry ∈ sends (s.woken w reply).2) :
    entry = (w.connection, Request.exit) ∧ w.closing = true ∧
      w.connection < s.connections.length := by
  unfold woken at h
  split at h
  · rename_i hclosing
    rw [sends_append, List.mem_append] at h
    rcases h with h | h
    · obtain ⟨rfl, hn⟩ := sends_sendIf h
      exact ⟨rfl, hclosing, hn⟩
    · simp [sends] at h
  · simp [sends] at h

end Server

end DialectBridge.Host
