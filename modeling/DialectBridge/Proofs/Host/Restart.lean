import DialectBridge.Proofs.Host.Conversation

/-!
# When a server is started again

A connection can be lost in two ways: its process ends, or what the process writes is read no more.  A
call looks at the process only.  So a connection whose process has ended is never asked again, and the
next call has a new process started; but a connection that is merely not read any more is asked on and
on, and who asks it can only wait for the time to be over.

* `Withers` — what a run can do to its connections: no process comes back, no reading is taken up again;
* `Takes`, `held_act` — the steps with which a call takes a connection;
* `Reuses`, `requestsOn_act` — the steps that send a request about a document on a connection;
* `unheard_act` — nobody gets an answer from a connection that is not read;
* `connection_reuse` — all of this for every run.
-/

namespace DialectBridge.Host

/-- The requests about documents that are sent on a connection. -/
def requestsOn (sent : List (Nat × Json)) (n : Nat) : List Json :=
  (sentOn sent n).filter fun message => (Link.requestOf? message).isSome

@[simp] theorem requestsOn_append (sent more : List (Nat × Json)) (n : Nat) :
    requestsOn (sent ++ more) n = requestsOn sent n ++ requestsOn more n := by
  simp [requestsOn]

@[simp] theorem requestsOn_nil (n : Nat) : requestsOn [] n = [] := rfl

theorem requestsOn_cons (k : Nat) (message : Json) (sent : List (Nat × Json)) (n : Nat) :
    requestsOn ((k, message) :: sent) n =
      if k = n ∧ (Link.requestOf? message).isSome then message :: requestsOn sent n
      else requestsOn sent n := by
  unfold requestsOn
  rw [sentOn_cons]
  by_cases hk : k = n
  · simp [hk, List.filter_cons]
  · simp [hk]

namespace Server

variable {s t u : Server} {n k : Nat} {call : Call}

/-! ## What is lost stays lost -/

/-- What a connection may become. -/
structure Wanes (c d : Connection) : Prop where
  alive : d.alive = true → c.alive = true
  reading : d.reading = true → c.reading = true

/-- No process comes back, no reading is taken up again, and only new connections are started. -/
structure Withers (s t : Server) : Prop where
  limit : t.limit = s.limit
  connections : ∀ (n : Nat) (c : Connection), s.connections[n]? = some c →
    ∃ d, t.connections[n]? = some d ∧ Wanes c d
  length : s.connections.length ≤ t.connections.length
  starting : ∀ b, t.starting = some b →
    (∃ a, s.starting = some a ∧ a.connection = b.connection) ∨ s.connections.length ≤ b.connection

theorem Wanes.refl (c : Connection) : Wanes c c :=
  ⟨fun h => h, fun h => h⟩

theorem Withers.refl (s : Server) : Withers s s where
  limit := rfl
  connections _ c h := ⟨c, h, .refl c⟩
  length := Nat.le_refl _
  starting b h := .inl ⟨b, h, rfl⟩

theorem Withers.trans (h : Withers s t) (h' : Withers t u) : Withers s u where
  limit := h'.limit.trans h.limit
  connections n c hc := by
    obtain ⟨d, hd, hwanes⟩ := h.connections n c hc
    obtain ⟨e, he, hwanes'⟩ := h'.connections n d hd
    exact ⟨e, he, fun ha => hwanes.alive (hwanes'.alive ha),
      fun hr => hwanes.reading (hwanes'.reading hr)⟩
  length := Nat.le_trans h.length h'.length
  starting b hb := by
    rcases h'.starting b hb with ⟨a, ha, hconn⟩ | hnew
    · rw [← hconn]
      exact h.starting a ha
    · exact .inr (Nat.le_trans h.length hnew)

theorem withers_modify (s : Server) (n : Nat) {f : Connection → Connection}
    (hf : ∀ c, Wanes c (f c)) : Withers s (s.modify n f) where
  limit := rfl
  connections k c hc := by
    unfold modify
    rw [List.getElem?_modify, hc]
    by_cases hk : n = k
    · exact ⟨f c, by simp [hk], hf c⟩
    · exact ⟨c, by simp [hk], .refl c⟩
  length := Nat.le_of_eq (List.length_modify ..).symm
  starting b h := .inl ⟨b, h, rfl⟩

theorem withers_setLink (s : Server) (n : Nat) (link : Link) : Withers s (s.setLink n link) :=
  withers_modify s n fun _ => ⟨fun h => h, fun h => h⟩

theorem withers_deliver (n : Nat) (s : Server) (settled : Int × Reply) :
    Withers s (deliver n s settled) where
  limit := rfl
  connections _ c h := ⟨c, h, .refl c⟩
  length := Nat.le_refl _
  starting b h := by
    obtain ⟨a, ha, rfl⟩ := Option.map_eq_some_iff.mp h
    refine .inl ⟨a, ha, ?_⟩
    split <;> rfl

theorem withers_takeOver (s : Server) (n : Nat) (link : Link) (effect : LinkEffect) :
    Withers s (s.takeOver n link effect).1 := by
  have hdeliver : ∀ (settled : List (Int × Reply)) (s : Server),
      Withers s (settled.foldl (deliver n) s) := by
    intro settled
    induction settled with
    | nil => exact .refl
    | cons first rest ih => exact fun s => (withers_deliver n s first).trans (ih _)
  exact (withers_setLink s n link).trans (hdeliver effect.settled _)

theorem withers_stopReading (s : Server) (n : Nat) : Withers s (s.stopReading n).1 := by
  have hmodify : Withers s (s.modify n fun c => { c with reading := false, inbox := [] }) :=
    withers_modify s n fun _ => ⟨fun h => h, fun h => by cases h⟩
  exact hmodify.trans (withers_takeOver _ n _ _)

theorem withers_readInbox (n fuel : Nat) (s : Server) : Withers s (readInbox n fuel s).1 := by
  induction fuel generalizing s with
  | zero => exact .refl s
  | succ fuel ih =>
    unfold readInbox
    split
    · exact .refl s
    · split
      · exact .refl s
      · split
        · exact .refl s
        · exact withers_stopReading s n
        · exact withers_stopReading s n
        · rename_i value rest _
          have hmodify : Withers s (s.modify n fun c => { c with inbox := rest }) :=
            withers_modify s n fun _ => ⟨fun h => h, fun h => h⟩
          exact (hmodify.trans (withers_takeOver _ n _ _)).trans (ih _)

theorem withers_hold (s : Server) (n caller : Nat) (call : Call) :
    Withers s (s.hold n caller call) :=
  { Withers.refl s with }

theorem withers_proceed (s : Server) : Withers s s.proceed.1 := by
  unfold proceed
  split
  · exact .refl s
  · rename_i h _
    split
    · unfold pose
      simp only
      split <;> exact { withers_setLink s h.connection _ with }
    · unfold bring
      simp only
      split <;> exact { withers_setLink s h.connection _ with }

theorem withers_launch (s : Server) (caller : Nat) (call : Call) :
    Withers s (s.launch caller call).1 where
  limit := rfl
  connections n c hc := by
    refine ⟨c, ?_, .refl c⟩
    have hlt : n < s.connections.length := (List.getElem?_eq_some_iff.mp hc).1
    simp only [launch]
    rwa [List.getElem?_append_left hlt]
  length := by simp [launch]
  starting b hb := by
    cases hb
    exact .inr (Nat.le_refl _)

theorem withers_release (s : Server) (caller : Nat) : Withers s (s.release caller).1 := by
  unfold release
  split
  · exact .refl s
  · rename_i n _
    simp only
    split
    · exact { withers_setLink s n _ with }
    · exact { Withers.refl s with }

theorem withers_relaunch (s : Server) (failure : Option OsError) (caller : Nat) (call : Call) :
    Withers s (s.relaunch failure caller call).1 := by
  cases failure with
  | none => exact withers_launch s caller call
  | some cause => exact .refl s

theorem withers_enter (s : Server) (failure : Option OsError) : Withers s (s.enter failure).1 := by
  have hqueue (queue : List Ticket) : Withers s { s with queue } := { Withers.refl s with }
  rcases enter_cases s failure with heq | ⟨-, -, ticket, queue, -, hcases⟩
  · rw [heq]
    exact .refl s
  · rcases hcases with ⟨-, heq⟩ | ⟨call, -, ⟨n, -, -, heq⟩ | ⟨-, heq⟩⟩ <;> rw [heq]
    · exact (hqueue queue).trans (withers_release _ _)
    · exact (hqueue queue).trans (withers_hold _ _ _ _)
    · exact (hqueue queue).trans (withers_relaunch _ _ _ _)

theorem withers_started (s : Server) (start : Starting) (reply : Reply) :
    Withers s (s.started start reply).1 := by
  have hdone : Withers s { s with starting := none } :=
    { Withers.refl s with starting := fun _ h => by cases h }
  unfold started
  simp only
  split
  · exact hdone
  · split
    · have hready : Withers s { s with starting := none, current := some start.connection } :=
        { hdone with }
      exact hready.trans (withers_hold _ _ _ _)
    · exact hdone

theorem withers_resume (s : Server) (n : Nat) (id : Int) : Withers s (s.resume n id).1 := by
  unfold resume
  split
  · split
    · exact withers_started s _ _
    · exact .refl s
  · split
    · split
      · unfold woken
        split <;> exact { Withers.refl s with }
      · exact .refl s
    · exact .refl s

/-- **What is lost stays lost**, whatever step is taken. -/
theorem withers_act (s : Server) (action : ServerAction) : Withers s (s.act action).1 := by
  cases action with
  | ask ticket => exact { Withers.refl s with }
  | enter failure => exact withers_enter s failure
  | proceed => exact withers_proceed s
  | resume n id => exact withers_resume s n id
  | bytes n bytes =>
    refine (withers_modify s n fun c => ?_).trans (withers_readInbox n _ _)
    split <;> exact ⟨fun h => h, fun h => h⟩
  | ended n =>
    have hmodify : Withers s (s.modify n fun c => { c with ended := true }) :=
      withers_modify s n fun _ => ⟨fun h => h, fun h => h⟩
    exact hmodify.trans (withers_readInbox n _ _)
  | blocked n => exact withers_modify s n fun _ => ⟨fun h => h, fun h => h⟩
  | died n => exact withers_modify s n fun _ => ⟨fun h => (by cases h), fun h => h⟩
  | expire n id => exact withers_takeOver s n _ _

/-! ## Who takes a connection -/

/-- A call has its turn, and finds the process of the current connection running. -/
structure Finds (s : Server) (n : Nat) : Prop where
  starting : s.starting = none
  holder : s.holder = none
  call : ∃ ticket queue call, s.queue = ticket :: queue ∧ ticket.task = .call call
  current : s.current = some n
  alive : s.alive? n = true

/-- A connection was started for a call, and has answered the greeting. -/
structure Begins (s : Server) (n : Nat) (id : Int) : Prop where
  starting : ∃ start value, s.starting = some start ∧ start.connection = n ∧ start.request = id ∧
    start.reply = some (.ok value)
  writing : s.writing? n = true

/-- The steps with which a call takes a connection. -/
def Takes (s : Server) (n : Nat) : ServerAction → Prop
  | .enter _ => s.Finds n
  | .resume k id => k = n ∧ s.Begins n id
  | _ => False

/-- A call has taken a connection, and not left it. -/
def Held (s : Server) (n : Nat) : Prop :=
  ∃ h, s.holder = some h ∧ h.connection = n

theorem Idles.held {done : Server × List ServerOutput} (h : Idles s done) (hheld : done.1.Held n) :
    s.Held n := by
  rwa [Held, h.1.holder] at hheld

theorem holder_release (s : Server) (caller : Nat) : (s.release caller).1.holder = s.holder := by
  unfold release
  split
  · rfl
  · simp only
    split <;> rfl

theorem holder_relaunch (s : Server) (failure : Option OsError) (caller : Nat) (call : Call) :
    (s.relaunch failure caller call).1.holder = s.holder := by
  cases failure <;> rfl

/-- A call that finds no process running has one started. -/
theorem enter_gone {ticket : Ticket} {queue : List Ticket} (hstarting : s.starting = none)
    (hfree : s.holder = none) (hqueue : s.queue = ticket :: queue) (htask : ticket.task = .call call)
    (hgone : ∀ k, s.current = some k → s.alive? k = false) (failure : Option OsError) :
    s.enter failure = ({ s with queue } : Server).relaunch failure ticket.caller call := by
  cases hcurrent : s.current with
  | none => simp [enter, hstarting, hfree, hqueue, htask, hcurrent]
  | some k =>
    have hdead := hgone k hcurrent
    rw [alive?] at hdead
    simp [enter, hstarting, hfree, hqueue, htask, hcurrent, alive?, hdead]

/-- A call that finds the process running takes the connection, whether or not its answers are read. -/
theorem enter_running {ticket : Ticket} {queue : List Ticket} (hstarting : s.starting = none)
    (hfree : s.holder = none) (hqueue : s.queue = ticket :: queue) (htask : ticket.task = .call call)
    (hcurrent : s.current = some k) (halive : s.alive? k = true) (failure : Option OsError) :
    s.enter failure = (({ s with queue } : Server).hold k ticket.caller call, [.proceed]) := by
  rw [alive?] at halive
  simp [enter, hstarting, hfree, hqueue, htask, hcurrent, alive?, halive]

theorem held_enter (s : Server) (failure : Option OsError) (n : Nat)
    (h : (s.enter failure).1.Held n) : s.Held n ∨ s.Finds n := by
  rcases enter_cases s failure with heq | ⟨hstarting, hfree, ticket, queue, hqueue, hcases⟩
  · rw [heq] at h
    exact .inl h
  · rcases hcases with ⟨-, heq⟩ | ⟨call, htask, ⟨k, hcurrent, halive, heq⟩ | ⟨-, heq⟩⟩ <;>
      rw [heq] at h
    · rw [Held, holder_release] at h
      exact .inl h
    · obtain ⟨holder, hholder, hn⟩ := h
      cases hholder
      subst hn
      exact .inr ⟨hstarting, hfree, ⟨ticket, queue, call, hqueue, htask⟩, hcurrent, halive⟩
    · rw [Held, holder_relaunch] at h
      exact .inl h

theorem Finds.held (h : s.Finds n) (failure : Option OsError) : (s.enter failure).1.Held n := by
  obtain ⟨ticket, queue, call, hqueue, htask⟩ := h.call
  rw [enter_running h.starting h.holder hqueue htask h.current h.alive]
  exact ⟨_, rfl, rfl⟩

theorem held_resume (s : Server) (k : Nat) (id : Int) (n : Nat) (h : (s.resume k id).1.Held n) :
    s.Held n ∨ k = n ∧ s.Begins n id := by
  unfold resume at h
  split at h
  · rename_i start hfilter
    obtain ⟨hstart, hmatch⟩ := Option.filter_eq_some_iff.mp hfilter
    obtain ⟨hk, hid⟩ : start.connection = k ∧ start.request = id := by simpa using hmatch
    split at h
    · rename_i reply hreply
      unfold started at h
      simp only at h
      split at h
      · exact .inl h
      · rename_i value
        split at h
        · rename_i hwriting
          obtain ⟨holder, hholder, hn⟩ := h
          cases hholder
          have hn : start.connection = n := hn
          refine .inr ⟨hk.symm.trans hn, ⟨start, value, hstart, hn, hid, hreply⟩, ?_⟩
          exact hn ▸ hwriting
        · exact .inl h
    · exact .inl h
  · split at h
    · split at h
      · unfold woken at h
        split at h <;> exact .inl h
      · exact .inl h
    · exact .inl h

theorem Begins.held {id : Int} (h : s.Begins n id) : (s.resume n id).1.Held n := by
  obtain ⟨start, value, hstart, hn, hid, hreply⟩ := h.starting
  have hwriting : ({ s with starting := none } : Server).writing? start.connection = true :=
    hn ▸ h.writing
  have hfilter : (s.starting.filter fun start => start.connection = n && start.request = id) =
      some start := by
    simp [hstart, Option.filter, hn, hid]
  unfold resume
  rw [hfilter]
  simp only [hreply]
  unfold started
  simp only [hwriting, if_true]
  exact ⟨_, rfl, hn⟩

/-- Nobody else comes to have the connection while a caller goes on. -/
theorem held_proceed (s : Server) (n : Nat) (h : s.proceed.1.Held n) : s.Held n := by
  unfold proceed at h
  split at h
  · exact h
  · rename_i holder hholder
    split at h
    · unfold pose at h
      simp only at h
      split at h <;> obtain ⟨_, hnone, -⟩ := h <;> cases hnone
    · unfold bring at h
      simp only at h
      split at h <;> obtain ⟨other, hother, hn⟩ := h <;> cases hother
      exact ⟨holder, hholder, hn⟩

/-- **The steps with which a call takes a connection.**  Whether the connection is read plays no part
in them. -/
theorem held_act (s : Server) (action : ServerAction) (n : Nat) :
    (s.Takes n action → (s.act action).1.Held n) ∧
      ((s.act action).1.Held n → s.Held n ∨ s.Takes n action) := by
  cases action with
  | ask ticket => exact ⟨False.elim, .inl⟩
  | enter failure => exact ⟨fun h => h.held failure, held_enter s failure n⟩
  | proceed => exact ⟨False.elim, fun h => .inl (held_proceed s n h)⟩
  | resume k id =>
    refine ⟨?_, held_resume s k id n⟩
    rintro ⟨rfl, h⟩
    exact h.held
  | bytes k bytes =>
    refine ⟨False.elim, fun h => .inl ((idles_read s k fun c => ?_).held h)⟩
    split <;> exact .refl c
  | ended k =>
    have hidles : Idles s (s.act (.ended k)) := idles_read s k fun c => .refl c
    exact ⟨False.elim, fun h => .inl (hidles.held h)⟩
  | blocked k => exact ⟨False.elim, .inl⟩
  | died k => exact ⟨False.elim, .inl⟩
  | expire k id => exact ⟨False.elim, fun h => .inl ((idles_expire s k id s.limit).held h)⟩

/-! ## Requests -/

/-- The steps that send the request of a call on a connection. -/
def Reuses (s : Server) (n : Nat) : ServerAction → Prop
  | .proceed => ∃ h, s.holder = some h ∧ h.connection = n ∧ h.brought = true ∧ s.writing? n = true
  | _ => False

theorem requestsOn_of_asides {out : List (Nat × Json)} (h : ∀ entry ∈ out, Aside entry.2) (n : Nat) :
    requestsOn out n = [] := by
  unfold Host.requestsOn sentOn
  refine List.filter_eq_nil_iff.mpr fun message hmessage => ?_
  obtain ⟨entry, hentry, rfl⟩ := List.mem_map.mp hmessage
  simp [(h entry (List.mem_filter.mp hentry).1).2]

theorem Idles.requestsOn {done : Server × List ServerOutput} (h : Idles s done) (n : Nat) :
    requestsOn (sends done.2) n = [] :=
  requestsOn_of_asides (fun entry hentry => (h.2 entry hentry).2.aside) n

theorem requestOf?_sync (l : Link) (uri : Uri) (text : String) :
    Link.requestOf? (l.sync uri text).2 = none := by
  unfold Link.sync
  split <;> simp [Link.didOpen, Link.didChange]

/-- A call is a request about its document. -/
theorem isSome_requestOf? (hproper : call.Proper) (id : Int) :
    (Link.requestOf? (Message.request id call.method call.params)).isSome = true := by
  have haddress : Link.address? call.params = some call.uri.text := hproper
  rw [Link.requestOf?_request, haddress]
  rfl

theorem requestsOn_bring (s : Server) (h : Holder) (n : Nat) :
    requestsOn (sends (s.bring h).2) n = [] := by
  unfold bring
  simp only
  split
  · simp [sends, requestsOn_cons, requestOf?_sync]
  · rfl

theorem requestsOn_pose {h : Holder} (hproper : h.call.Proper) :
    requestsOn (sends (s.pose h).2) n = [] ↔ ¬(h.connection = n ∧ s.writing? n = true) := by
  unfold pose
  simp only
  split
  · rename_i hwriting
    simp only [sends, List.filterMap_cons, List.filterMap_nil, requestsOn_cons, Link.request,
      isSome_requestOf? hproper]
    by_cases hn : h.connection = n
    · subst hn
      simp [hwriting]
    · simp [hn]
  · rename_i hblocked
    refine iff_of_true rfl ?_
    rintro ⟨rfl, hwriting⟩
    exact hblocked hwriting

theorem requestsOn_proceed (hproper : ∀ h, s.holder = some h → h.call.Proper) (n : Nat) :
    requestsOn (sends s.proceed.2) n = [] ↔ ¬s.Reuses n .proceed := by
  unfold proceed
  cases hholder : s.holder with
  | none =>
    refine iff_of_true rfl ?_
    rintro ⟨h, hnone, -⟩
    cases hholder.symm.trans hnone
  | some h =>
    have hreuses : s.Reuses n .proceed ↔
        h.connection = n ∧ h.brought = true ∧ s.writing? n = true := by
      constructor
      · rintro ⟨other, hother, hrest⟩
        obtain rfl := Option.some.inj (hholder.symm.trans hother)
        exact hrest
      · exact fun hrest => ⟨h, hholder, hrest⟩
    rw [hreuses]
    simp only
    split
    · rename_i hbrought
      rw [requestsOn_pose (hproper h hholder)]
      simp [hbrought]
    · rename_i hnew
      exact iff_of_true (requestsOn_bring s h n) fun hrest => hnew hrest.2.1

theorem requestsOn_release (s : Server) (caller n : Nat) :
    requestsOn (sends (s.release caller).2) n = [] := by
  unfold release
  split
  · rfl
  · simp only
    split
    · simp only [sends, List.filterMap_cons, List.filterMap_nil, requestsOn_cons, Link.request]
      simp [Link.address?, Json.get?]
    · rfl

theorem requestsOn_relaunch (s : Server) (failure : Option OsError) (caller : Nat) (call : Call)
    (n : Nat) : requestsOn (sends (s.relaunch failure caller call).2) n = [] := by
  cases failure with
  | some cause => rfl
  | none =>
    have hgreeting := (aside_greeting s.processId).2
    rw [greeting] at hgreeting
    simp only [relaunch, launch, Link.request, Link.fresh, sends, List.filterMap_cons,
      List.filterMap_nil, requestsOn_cons, hgreeting]
    simp

theorem requestsOn_enter (s : Server) (failure : Option OsError) (n : Nat) :
    requestsOn (sends (s.enter failure).2) n = [] := by
  rcases enter_cases s failure with heq | ⟨-, -, ticket, queue, -, hcases⟩
  · rw [heq]
    rfl
  · rcases hcases with ⟨-, heq⟩ | ⟨call, -, ⟨k, -, -, heq⟩ | ⟨-, heq⟩⟩ <;> rw [heq]
    · exact requestsOn_release _ _ _
    · rfl
    · exact requestsOn_relaunch _ _ _ _ _

theorem requestsOn_started (s : Server) (start : Starting) (reply : Reply) (n : Nat) :
    requestsOn (sends (s.started start reply).2) n = [] := by
  unfold started
  simp only
  split
  · rfl
  · split
    · simp [sends, requestsOn_cons, Request.initialized]
    · rfl

theorem requestsOn_resume (s : Server) (k : Nat) (id : Int) (n : Nat) :
    requestsOn (sends (s.resume k id).2) n = [] := by
  unfold resume
  split
  · split
    · exact requestsOn_started s _ _ n
    · rfl
  · split
    · split
      · refine requestsOn_of_asides (fun entry hentry => ?_) n
        rw [(sends_woken hentry).1]
        exact aside_exit
      · rfl
    · rfl

/-- **The steps that send a request on a connection**: its call has the connection, and has brought its
document. -/
theorem requestsOn_act (hproper : ∀ h, s.holder = some h → h.call.Proper) (action : ServerAction)
    (n : Nat) : requestsOn (sends (s.act action).2) n = [] ↔ ¬s.Reuses n action := by
  cases action with
  | ask ticket => exact iff_of_true rfl fun h => h
  | enter failure => exact iff_of_true (requestsOn_enter s failure n) fun h => h
  | proceed => exact requestsOn_proceed hproper n
  | resume k id => exact iff_of_true (requestsOn_resume s k id n) fun h => h
  | bytes k bytes =>
    refine iff_of_true ((idles_read s k fun c => ?_).requestsOn n) fun h => h
    split <;> exact .refl c
  | ended k =>
    have hidles : Idles s (s.act (.ended k)) := idles_read s k fun c => .refl c
    exact iff_of_true (hidles.requestsOn n) fun h => h
  | blocked k => exact iff_of_true rfl fun h => h
  | died k => exact iff_of_true rfl fun h => h
  | expire k id => exact iff_of_true ((idles_expire s k id s.limit).requestsOn n) fun h => h

/-! ## Answers -/

/-- What the server writes on a connection is not read. -/
def Unread (s : Server) (n : Nat) : Prop :=
  ∀ c, s.connections[n]? = some c → c.reading = false

/-- Nobody has got an answer from a connection, except that the time is over. -/
def Unheard (n : Nat) (s t : Server) : Prop :=
  ∀ v ∈ t.waiting, v.connection = n →
    v ∈ s.waiting ∨ v.reply = none ∨ v.reply = some (.error (.timeout s.limit))

theorem Unread.withers (h : s.Unread n) (hlt : n < s.connections.length) (hwithers : Withers s t) :
    t.Unread n := by
  intro d hd
  obtain ⟨d', hd', hwanes⟩ := hwithers.connections n _ (List.getElem?_eq_getElem hlt)
  obtain rfl : d' = d := Option.some.inj (hd'.symm.trans hd)
  cases hreading : d'.reading with
  | false => rfl
  | true => exact (hwanes.reading hreading).symm.trans (h _ (List.getElem?_eq_getElem hlt))

theorem unheard_of_subset (h : ∀ v ∈ t.waiting, v ∈ s.waiting) : Unheard n s t :=
  fun v hv _ => .inl (h v hv)

theorem Unheard.trans (h : Unheard n s t) (hlimit : t.limit = s.limit) (h' : Unheard n t u) :
    Unheard n s u := by
  intro v hv hn
  rcases h' v hv hn with hv | hnone | htimeout
  · exact h v hv hn
  · exact .inr (.inl hnone)
  · exact .inr (.inr (hlimit ▸ htimeout))

theorem mem_deliver {v : Waiting} {settled : Int × Reply} (h : v ∈ (deliver k s settled).waiting) :
    v ∈ s.waiting ∨ v.connection = k ∧ v.reply = some settled.2 := by
  obtain ⟨w, hw, rfl⟩ := List.mem_map.mp h
  split
  · rename_i hmatch
    exact .inr ⟨hmatch.1, rfl⟩
  · exact .inl hw

theorem mem_deliverAll {v : Waiting} {settled : List (Int × Reply)}
    (h : v ∈ (settled.foldl (deliver k) s).waiting) :
    v ∈ s.waiting ∨ v.connection = k ∧ ∃ entry ∈ settled, v.reply = some entry.2 := by
  induction settled generalizing s with
  | nil => exact .inl h
  | cons first rest ih =>
    rcases ih h with h | ⟨hk, entry, hentry, hreply⟩
    · exact (mem_deliver h).imp_right fun ⟨hk, hreply⟩ => ⟨hk, first, List.mem_cons_self, hreply⟩
    · exact .inr ⟨hk, entry, List.mem_cons_of_mem _ hentry, hreply⟩

/-- A link that settles nothing but by the clock, or another one. -/
theorem unheard_takeOver (s : Server) (k : Nat) {link : Link} {effect : LinkEffect}
    (h : k = n → ∀ entry ∈ effect.settled, entry.2 = .error (.timeout s.limit)) :
    Unheard n s (s.takeOver k link effect).1 := by
  intro v hv hn
  have hmem : v ∈ (effect.settled.foldl (deliver k) (s.setLink k link)).waiting := hv
  rcases mem_deliverAll hmem with hold | ⟨hk, entry, hentry, hreply⟩
  · exact .inl hold
  · rw [h (hk.symm.trans hn) entry hentry] at hreply
    exact .inr (.inr hreply)

theorem unheard_stopReading (hk : k ≠ n) : Unheard n s (s.stopReading k).1 :=
  unheard_takeOver _ k fun h => absurd h hk

/-- Reading one connection gives no answer to those who wait for another. -/
theorem unheard_readInbox (hk : k ≠ n) (fuel : Nat) (s : Server) :
    Unheard n s (readInbox k fuel s).1 := by
  induction fuel generalizing s with
  | zero => exact unheard_of_subset fun _ h => h
  | succ fuel ih =>
    have hsame : Unheard n s s := unheard_of_subset fun _ h => h
    unfold readInbox
    split
    · exact hsame
    · split
      · exact hsame
      · split
        · exact hsame
        · exact unheard_stopReading hk
        · exact unheard_stopReading hk
        · rename_i value rest _
          let inner := s.modify k fun c => { c with inbox := rest }
          have htaken : Unheard n s
              (inner.takeOver k ((inner.link k).receive value).1 ((inner.link k).receive value).2).1 :=
            unheard_takeOver inner k fun h => absurd h hk
          exact htaken.trans (withers_takeOver inner k _ _).limit (ih _)

theorem readInbox_unread (h : s.Unread n) (fuel : Nat) : readInbox n fuel s = (s, []) := by
  cases fuel with
  | zero => rfl
  | succ fuel =>
    unfold readInbox
    split
    · rfl
    · rename_i c hc
      simp [h c hc]

theorem unheard_read (h : s.Unread n) (k : Nat) {f : Connection → Connection}
    (hf : ∀ c, (f c).reading = c.reading) : Unheard n s ((s.modify k f).read k).1 := by
  by_cases hk : k = n
  · subst hk
    have hunread : (s.modify k f).Unread k := by
      intro d hd
      unfold modify at hd
      rw [List.getElem?_modify_eq] at hd
      obtain ⟨c, hc, rfl⟩ := Option.map_eq_some_iff.mp hd
      exact (hf c).trans (h c hc)
    unfold read
    rw [readInbox_unread hunread]
    exact unheard_of_subset fun _ h => h
  · exact unheard_readInbox hk _ (s.modify k f)

theorem unheard_proceed (s : Server) (n : Nat) : Unheard n s s.proceed.1 := by
  have hsame : Unheard n s s := unheard_of_subset fun _ h => h
  unfold proceed
  split
  · exact hsame
  · split
    · intro v hv _
      unfold pose at hv
      simp only at hv
      split at hv
      · rcases List.mem_append.mp hv with hv | hv
        · exact .inl hv
        · rw [List.mem_singleton.mp hv]
          exact .inr (.inl rfl)
      · exact .inl hv
    · unfold bring
      simp only
      split <;> exact unheard_of_subset fun _ h => h

theorem unheard_release (s : Server) (caller n : Nat) : Unheard n s (s.release caller).1 := by
  intro v hv _
  unfold release at hv
  split at hv
  · exact .inl hv
  · simp only at hv
    split at hv
    · rcases List.mem_append.mp hv with hv | hv
      · exact .inl hv
      · rw [List.mem_singleton.mp hv]
        exact .inr (.inl rfl)
    · exact .inl hv

theorem unheard_enter (s : Server) (failure : Option OsError) (n : Nat) :
    Unheard n s (s.enter failure).1 := by
  rcases enter_cases s failure with heq | ⟨-, -, ticket, queue, -, hcases⟩
  · rw [heq]
    exact unheard_of_subset fun _ h => h
  · rcases hcases with ⟨-, heq⟩ | ⟨call, -, ⟨k, -, -, heq⟩ | ⟨-, heq⟩⟩ <;> rw [heq]
    · exact unheard_release { s with queue } _ n
    · exact unheard_of_subset fun _ h => h
    · cases failure <;> exact unheard_of_subset fun _ h => h

theorem unheard_resume (s : Server) (k : Nat) (id : Int) (n : Nat) :
    Unheard n s (s.resume k id).1 := by
  have hsame : Unheard n s s := unheard_of_subset fun _ h => h
  unfold resume
  split
  · split
    · unfold started
      simp only
      split
      · exact hsame
      · split <;> exact hsame
    · exact hsame
  · split
    · split
      · unfold woken
        split <;> exact unheard_of_subset fun v hv => (List.mem_filter.mp hv).1
      · exact hsame
    · exact hsame

/-- **Nobody gets an answer from a connection that is not read**, whatever step is taken. -/
theorem unheard_act (h : s.Unread n) (action : ServerAction) : Unheard n s (s.act action).1 := by
  cases action with
  | ask ticket => exact unheard_of_subset fun _ h => h
  | enter failure => exact unheard_enter s failure n
  | proceed => exact unheard_proceed s n
  | resume k id => exact unheard_resume s k id n
  | bytes k bytes =>
    refine unheard_read h k fun c => ?_
    split <;> rfl
  | ended k => exact unheard_read h k fun c => rfl
  | blocked k => exact unheard_of_subset fun _ h => h
  | died k => exact unheard_of_subset fun _ h => h
  | expire k id =>
    have htimeout : ∀ entry ∈ ((s.link k).expire id s.limit).2.settled,
        entry.2 = .error (.timeout s.limit) := by
      intro entry hentry
      unfold Link.expire at hentry
      split at hentry
      · rw [List.mem_singleton.mp hentry]
      · cases hentry
    exact unheard_takeOver s k fun _ => htimeout

end Server

/-! ## Runs -/

namespace Scene

variable {x : Scene} {processId : Json} {n : Nat}

/-- The requests about documents that have been sent on a connection. -/
def asked (x : Scene) (n : Nat) : List Json :=
  requestsOn x.sent n

/-- The moves with which a call takes a connection. -/
def Takes (x : Scene) (n : Nat) (m : Move) : Prop :=
  ∃ action, m = .step action ∧ x.server.Takes n action

/-- The moves that send the request of a call on a connection. -/
def Reuses (x : Scene) (n : Nat) (m : Move) : Prop :=
  ∃ action, m = .step action ∧ x.server.Reuses n action

/-- Only a step of the server sends anything. -/
theorem sent_move {m : Move} (h : ∀ action, m ≠ .step action) : (x.move m).sent = x.sent := by
  have hask (task : Task) : (x.ask task).sent = x.sent := by
    simp [ask, act, Server.act, sends]
  cases m with
  | publish owner text => rfl
  | complete request =>
    cases htask : x.task? (.complete request) with
    | none => simp [move, htask]
    | some task => simp [move, htask, hask]
  | definition request => exact hask _
  | hover request => exact hask _
  | shutdown => exact hask _
  | step action => exact absurd rfl (h action)

/-- A move sends requests on a connection just if it is one of those. -/
theorem asked_move (h : x.Sound processId) (n : Nat) (m : Move) :
    ∃ new, (x.move m).asked n = x.asked n ++ new ∧ (new = [] ↔ ¬x.Reuses n m) := by
  by_cases hstep : ∃ action, m = .step action
  · obtain ⟨action, rfl⟩ := hstep
    have hreuses : x.Reuses n (.step action) ↔ x.server.Reuses n action :=
      ⟨fun ⟨_, heq, h⟩ => Move.step.inj heq ▸ h, fun h => ⟨action, rfl, h⟩⟩
    have hproper : ∀ holder, x.server.holder = some holder → holder.call.Proper := by
      intro holder hholder
      exact h.proper holder.call (List.mem_of_getElem? (h.holder holder hholder).2.2)
    by_cases hask : ∃ ticket, action = .ask ticket
    · obtain ⟨ticket, rfl⟩ := hask
      refine ⟨[], (List.append_nil _).symm, iff_of_true rfl ?_⟩
      rw [hreuses]
      exact fun h => h
    · have hmove : x.move (.step action) = x.act action := by
        cases action with
        | ask ticket => exact absurd ⟨ticket, rfl⟩ hask
        | _ => rfl
      refine ⟨requestsOn (sends (x.server.act action).2) n, ?_, ?_⟩
      · rw [hmove, asked, act, requestsOn_append, asked]
      · rw [hreuses]
        exact Server.requestsOn_act hproper action n
  · refine ⟨[], ?_, iff_of_true rfl fun ⟨action, heq, _⟩ => hstep ⟨action, heq⟩⟩
    rw [asked, sent_move fun action heq => hstep ⟨action, heq⟩, asked, List.append_nil]

theorem Reuses.held {m : Move} (h : x.Reuses n m) : x.server.Held n := by
  obtain ⟨action, -, hreuses⟩ := h
  cases action with
  | proceed =>
    obtain ⟨holder, hholder, hn, -⟩ := hreuses
    exact ⟨holder, hholder, hn⟩
  | _ => exact hreuses.elim

/-- A move that takes a connection leaves it held, and no other move does. -/
theorem held_move (x : Scene) (n : Nat) (m : Move) :
    (x.Takes n m → (x.move m).server.Held n) ∧
      ((x.move m).server.Held n → x.server.Held n ∨ x.Takes n m) := by
  constructor
  · rintro ⟨action, rfl, htakes⟩
    have hheld := (Server.held_act x.server action n).1 htakes
    cases action with
    | ask ticket => exact htakes.elim
    | _ => exact hheld
  · intro hheld
    obtain ⟨documents, heq, -⟩ | ⟨action, hm, -, heq, -⟩ | ⟨task, -, heq⟩ := x.move_cases m <;>
      rw [heq] at hheld
    · exact .inl hheld
    · exact ((Server.held_act x.server action n).2 hheld).imp_right fun htakes => ⟨action, hm, htakes⟩
    · exact .inl hheld

theorem withers_move (x : Scene) (m : Move) : Server.Withers x.server (x.move m).server := by
  obtain ⟨documents, heq, -⟩ | ⟨action, -, -, heq, -⟩ | ⟨task, -, heq⟩ := x.move_cases m <;> rw [heq]
  · exact .refl _
  · exact Server.withers_act x.server action
  · exact Server.withers_act x.server (.ask _)

theorem unheard_move (h : x.server.Unread n) (m : Move) :
    Server.Unheard n x.server (x.move m).server := by
  obtain ⟨documents, heq, -⟩ | ⟨action, -, -, heq, -⟩ | ⟨task, -, heq⟩ := x.move_cases m <;> rw [heq]
  · exact Server.unheard_of_subset fun _ h => h
  · exact Server.unheard_act h action
  · exact Server.unheard_act h (.ask _)

section Runs

variable (program : String) (limit : Nat) (processId : Json) (moves more : List Move)

theorem withers_after :
    Server.Withers (after program limit processId moves).server
      (after program limit processId (moves ++ more)).server := by
  induction more using List.reverseRecOn with
  | nil => rw [List.append_nil]; exact .refl _
  | append_singleton more m ih =>
    rw [← List.append_assoc, after_concat]
    exact ih.trans (withers_move _ m)

theorem limit_after : (after program limit processId moves).server.limit = limit :=
  (withers_after program limit processId [] moves).limit

theorem unheard_after (hlt : n < (after program limit processId moves).server.connections.length)
    (h : (after program limit processId moves).server.Unread n) :
    Server.Unheard n (after program limit processId moves).server
      (after program limit processId (moves ++ more)).server := by
  induction more using List.reverseRecOn with
  | nil => rw [List.append_nil]; exact Server.unheard_of_subset fun _ h => h
  | append_singleton more m ih =>
    have hwithers := withers_after program limit processId moves more
    rw [← List.append_assoc, after_concat]
    exact ih.trans hwithers.limit (unheard_move (h.withers hlt hwithers) m)

/-- A run sends requests on a connection just if one of its moves does. -/
theorem asked_after (n : Nat) :
    ∃ new, (after program limit processId (moves ++ more)).asked n =
        (after program limit processId moves).asked n ++ new ∧
      (new = [] ↔ ∀ earlier m later, more = earlier ++ m :: later →
        ¬(after program limit processId (moves ++ earlier)).Reuses n m) := by
  induction more using List.reverseRecOn with
  | nil =>
    refine ⟨[], by rw [List.append_nil, List.append_nil], iff_of_true rfl ?_⟩
    intro earlier m later hsplit
    simp at hsplit
  | append_singleton more m ih =>
    obtain ⟨old, hold, hnone⟩ := ih
    obtain ⟨new, hnew, hlast⟩ :=
      asked_move (sound_after program limit processId (moves ++ more)) n m
    rw [← List.append_assoc, after_concat, hnew, hold]
    refine ⟨old ++ new, List.append_assoc _ _ _, ?_⟩
    rw [List.append_eq_nil_iff, hnone, hlast]
    constructor
    · rintro ⟨hbefore, hm⟩ earlier m' later hsplit
      rcases eq_of_concat_eq hsplit with ⟨rfl, rfl⟩ | ⟨later', hsplit'⟩
      · exact hm
      · exact hbefore earlier m' later' hsplit'
    · intro hall
      refine ⟨fun earlier m' later hsplit => hall earlier m' (later ++ [m]) ?_, hall more m [] rfl⟩
      rw [hsplit, List.append_assoc, List.cons_append]

/-- A connection whose process has ended is not taken again, unless a call is just about to begin on
it. -/
theorem not_takes_of_dead {c : Connection}
    (hc : (after program limit processId moves).server.connections[n]? = some c)
    (hdead : c.alive = false)
    (hstarting : ∀ start, (after program limit processId moves).server.starting = some start →
      start.connection ≠ n) (m : Move) :
    ¬(after program limit processId (moves ++ more)).Takes n m := by
  have hwithers := withers_after program limit processId moves more
  obtain ⟨d, hd, hwanes⟩ := hwithers.connections n c hc
  rintro ⟨action, -, htakes⟩
  cases action with
  | enter failure =>
    have halive : d.alive = true := by simpa [Server.alive?, hd] using htakes.alive
    exact absurd (hwanes.alive halive) (by simp [hdead])
  | resume k id =>
    obtain ⟨start, -, hstart, hn, -⟩ := htakes.2.starting
    rcases hwithers.starting start hstart with ⟨first, hfirst, hsame⟩ | hnew
    · exact hstarting first hfirst (hsame.trans hn)
    · have hlt : n < _ := (List.getElem?_eq_some_iff.mp hc).1
      omega
  | _ => exact htakes

/-- Nor does anybody come to have it. -/
theorem not_held_of_dead {c : Connection}
    (hc : (after program limit processId moves).server.connections[n]? = some c)
    (hdead : c.alive = false)
    (hstarting : ∀ start, (after program limit processId moves).server.starting = some start →
      start.connection ≠ n)
    (hfree : ¬(after program limit processId moves).server.Held n) :
    ¬(after program limit processId (moves ++ more)).server.Held n := by
  induction more using List.reverseRecOn with
  | nil => rwa [List.append_nil]
  | append_singleton more m ih =>
    rw [← List.append_assoc, after_concat]
    intro hheld
    rcases (held_move _ n m).2 hheld with hheld | htakes
    · exact ih hheld
    · exact not_takes_of_dead program limit processId moves more hc hdead hstarting m htakes

end Runs

end Scene

/-- **When a connection is used again.**  In every run, requests about documents are sent on a
connection just by the calls that have taken it, after their documents; and a connection is taken just
by the calls that find its process running, and by the call that it was started for.  Once the process
has ended there are no such calls any more, and the next call has a new process started.  If the process
runs but is not read any more, it is not read ever again: whoever was not waiting already waits in vain,
until the time is over. -/
theorem connection_reuse (program : String) (limit : Nat) (processId : Json) (moves : List Move)
    (n : Nat) (c : Connection)
    (hc : (Scene.after program limit processId moves).server.connections[n]? = some c) :
    let scene := Scene.after program limit processId
    (∀ more, (scene (moves ++ more)).asked n = (scene moves).asked n ↔
      ∀ earlier m later, more = earlier ++ m :: later →
        ¬(scene (moves ++ earlier)).Reuses n m) ∧
    (∀ m, ((scene moves).Takes n m → (scene (moves ++ [m])).server.Held n) ∧
      ((scene (moves ++ [m])).server.Held n →
        (scene moves).server.Held n ∨ (scene moves).Takes n m)) ∧
    (c.alive = false →
      (∀ start, (scene moves).server.starting = some start → start.connection ≠ n) →
      ¬(scene moves).server.Held n →
      ∀ more, (scene (moves ++ more)).asked n = (scene moves).asked n ∧
        ∀ s, s = (scene (moves ++ more)).server → s.starting = none → s.holder = none →
          s.current = some n →
          ∀ ticket queue call, s.queue = ticket :: queue → ticket.task = .call call →
            (s.enter none).1.starting =
              some ⟨s.connections.length, 1, ticket.caller, call, none⟩) ∧
    (c.reading = false → ∀ more, (scene (moves ++ more)).server.Unread n ∧
      ∀ w ∈ (scene (moves ++ more)).server.waiting, w.connection = n →
        w ∈ (scene moves).server.waiting ∨ w.reply = none ∨
          w.reply = some (.error (.timeout limit))) := by
  intro scene
  have hiff : ∀ more, (scene (moves ++ more)).asked n = (scene moves).asked n ↔
      ∀ earlier m later, more = earlier ++ m :: later →
        ¬(scene (moves ++ earlier)).Reuses n m := by
    intro more
    obtain ⟨new, hnew, hnone⟩ := Scene.asked_after program limit processId moves more n
    rw [← hnone]
    exact (Eq.congr_left hnew).trans List.append_right_eq_self
  refine ⟨hiff, fun m => ?_, fun hdead hstarting hfree more => ⟨?_, ?_⟩, fun hunread more => ?_⟩
  · simp only [scene]
    rw [Scene.after_concat]
    exact Scene.held_move _ n m
  · refine (hiff more).mpr fun earlier m later _ hreuses => ?_
    exact Scene.not_held_of_dead program limit processId moves earlier hc hdead hstarting hfree
      hreuses.held
  · rintro s rfl hidle hnobody hcurrent ticket queue call hqueue htask
    obtain ⟨d, hd, hwanes⟩ :=
      (Scene.withers_after program limit processId moves more).connections n c hc
    have hgone : ∀ k, (scene (moves ++ more)).server.current = some k →
        (scene (moves ++ more)).server.alive? k = false := by
      intro k hk
      obtain rfl := Option.some.inj (hcurrent.symm.trans hk)
      have hnot : ¬d.alive = true := fun halive => by simp [hwanes.alive halive] at hdead
      simpa [Server.alive?, scene, hd] using hnot
    rw [Server.enter_gone hidle hnobody hqueue htask hgone]
    rfl
  · have hlt : n < (scene moves).server.connections.length := (List.getElem?_eq_some_iff.mp hc).1
    have hnow : (scene moves).server.Unread n := by
      intro d hd
      obtain rfl := Option.some.inj (hc.symm.trans hd)
      exact hunread
    have hunheard := Scene.unheard_after program limit processId moves more hlt hnow
    rw [Server.Unheard, Scene.limit_after] at hunheard
    exact ⟨hnow.withers hlt (Scene.withers_after program limit processId moves more), hunheard⟩

/-- A process that runs and writes something unreadable: the next call takes its connection and is sent
to it all the same, and none of its answers can be read. -/
theorem connection_reuse_unreadable :
    let request : PositionRequest := ⟨⟨"file", "///a"⟩, "a", ⟨0, 0⟩⟩
    let answer := Text.Utf8.bytesOf "Content-Length: 19\r\n\r\n\x7b\"id\":1,\"result\":1\x7d"
    let moves : List Move :=
      [.hover request, .step (.enter none), .step (.bytes 0 answer), .step (.resume 0 1),
        .step .proceed, .step .proceed,
        .step (.bytes 0 (Text.Utf8.bytesOf "Content-Length: 1\r\n\r\n]")), .hover request,
        .step (.enter none), .step .proceed]
    let scene := Scene.after "server" 150 .null
    ∃ c, (scene moves).server.connections[0]? = some c ∧ c.reading = false ∧ c.alive = true ∧
      (scene moves).Reuses 0 (.step .proceed) ∧
      ∀ more, ∀ w ∈ (scene (moves ++ more)).server.waiting, w.connection = 0 →
        w ∈ (scene moves).server.waiting ∨ w.reply = none ∨
          w.reply = some (.error (.timeout 150)) := by
  intro request answer moves scene
  have hstate : ((scene moves).server.connections[0]?.map fun c => (c.reading, c.alive)) =
      some (false, true) := by decide +kernel
  have hasked : ((scene (moves ++ [.step .proceed])).asked 0).length ≠
      ((scene moves).asked 0).length := by decide +kernel
  obtain ⟨c, hc, hflags⟩ := Option.map_eq_some_iff.mp hstate
  obtain ⟨hreading, halive⟩ : c.reading = false ∧ c.alive = true := by simpa using hflags
  obtain ⟨hiff, -, -, hunread⟩ := connection_reuse "server" 150 .null moves 0 c hc
  refine ⟨c, hc, hreading, halive, ?_, fun more => (hunread hreading more).2⟩
  by_contra hnot
  refine hasked (congrArg List.length ((hiff [.step .proceed]).mpr ?_))
  intro earlier m later hsplit
  have hconcat : [] ++ [.step .proceed] = earlier ++ m :: later := hsplit
  rcases eq_of_concat_eq hconcat with ⟨rfl, rfl⟩ | ⟨rest, hempty⟩
  · rw [List.append_nil]
    exact hnot
  · simp at hempty

end DialectBridge.Host
