import DialectBridge.Host.Link
import DialectBridge.Proofs.Json.Fields
import Mathlib.Data.List.Induction
import Mathlib.Data.List.Nodup

/-!
# Requests on a connection

Requests are issued, messages come in, requests expire and the stream ends, in any order.  What
becomes of a request can be told from what happens after it was issued: the first step with a verdict
on it settles it, and no later one does.

* `Traffic.verdict?` — what a step makes of a request that waits;
* `step_settled`, `step_pending` — a step settles the waiting requests it has a verdict on;
* `fate` — the first verdict counts;
* `Sound` — the requests that wait are those issued and not settled;
* `step_cancels`, `step_answers` — what is sent for a request that expires, and for one of the server;
* `request_routing` — all of this for every run of a connection.
-/

namespace DialectBridge

namespace Host.Link

/-- A message that takes a request back. -/
def isCancel (message : Json) : Bool :=
  methodOf? message = some "$/cancelRequest" && (idOf? message).isNone

/-- A message without a method. -/
def isResponse (message : Json) : Bool :=
  methodOf? message = none

@[simp] theorem methodOf?_request (id : Int) (method : String) (params : Json) :
    methodOf? (Message.request id method params) = some method := by
  simp [methodOf?, Message.request, Message.version, Json.get?_object, Json.asString?]

@[simp] theorem idOf?_request (id : Int) (method : String) (params : Json) :
    idOf? (Message.request id method params) = some (.int id) := by
  simp [idOf?, Message.request, Message.version, Json.get?_object, Json.isNull]

@[simp] theorem methodOf?_notification (method : String) (params : Json) :
    methodOf? (Message.notification method params) = some method := by
  simp [methodOf?, Message.notification, Message.version, Json.get?_object, Json.asString?]

@[simp] theorem idOf?_notification (method : String) (params : Json) :
    idOf? (Message.notification method params) = none := by
  simp [idOf?, Message.notification, Message.version, Json.get?_object]

@[simp] theorem methodOf?_response (id result : Json) :
    methodOf? (Message.response id result) = none := by
  simp [methodOf?, Message.response, Message.version, Json.get?_object]

/-! ## Runs of a connection -/

/-- What happens on a connection. -/
inductive Traffic where
  | issue (method : String) (params : Json)
  | sync (uri : Uri) (text : String)
  | receive (message : Json)
  | expire (id : Int) (limit : Nat)
  | finish

/-- A connection, and all that was issued, sent and settled on it, in order. -/
structure Log where
  link : Link
  issued : List Int
  sent : List Json
  settled : List (Int × Reply)

def Log.apply (g : Log) (done : Link × LinkEffect) : Log :=
  { g with link := done.1, sent := g.sent ++ done.2.send, settled := g.settled ++ done.2.settled }

def Log.step (g : Log) : Traffic → Log
  | .issue method params =>
    let (link, id, message) := g.link.request method params
    { g with link, issued := g.issued ++ [id], sent := g.sent ++ [message] }
  | .sync uri text =>
    let (link, message) := g.link.sync uri text
    { g with link, sent := g.sent ++ [message] }
  | .receive message => g.apply (g.link.receive message)
  | .expire id limit => g.apply (g.link.expire id limit)
  | .finish => g.apply g.link.finish

/-- A new connection after some steps. -/
def Log.after (steps : List Traffic) : Log :=
  steps.foldl Log.step ⟨.fresh, [], [], []⟩

/-- The request that a message responds to: it has no method, and a number for an id. -/
def responseTo? (message : Json) : Option Int :=
  if isResponse message then (idOf? message).bind Json.asInt64? else none

/-- What a step makes of a request that waits. -/
def Traffic.verdict? (id : Int) : Traffic → Option Reply
  | .receive message => if responseTo? message = some id then some (replyOf message) else none
  | .expire id' limit => if id' = id then some (.error (.timeout limit)) else none
  | .finish => some (.error .closed)
  | _ => none

/-- The request that a step issues. -/
def Traffic.issues (l : Link) : Traffic → List Int
  | .issue _ _ => [l.nextId]
  | _ => []

/-- The requests that expired, of those settled. -/
def timedOut? : Int × Reply → Option Int
  | (id, .error (.timeout _)) => some id
  | _ => none

/-- The answer that a message calls for: one with an id and a method is answered with `null`. -/
def answerTo? (message : Json) : Option Json :=
  match idOf? message, methodOf? message with
  | some id, some _ => some (Message.response id .null)
  | _, _ => none

def Traffic.answer? : Traffic → Option Json
  | .receive message => answerTo? message
  | _ => none

variable {g : Log} {l : Link} {id : Int} {reply : Reply} {message : Json} {steps : List Traffic}

theorem after_concat (steps : List Traffic) (step : Traffic) :
    Log.after (steps ++ [step]) = (Log.after steps).step step := by
  simp only [Log.after, List.foldl_append, List.foldl_cons, List.foldl_nil]

/-! ## One step -/

/-- The verdicts of a step on requests that wait. -/
def Traffic.verdicts (pending : List Int) (step : Traffic) : List (Int × Reply) :=
  pending.filterMap fun id => (step.verdict? id).map (id, ·)

theorem mem_verdicts {pending : List Int} {step : Traffic} :
    (id, reply) ∈ step.verdicts pending ↔ id ∈ pending ∧ step.verdict? id = some reply := by
  simp [Traffic.verdicts, List.mem_filterMap, Option.map_eq_some_iff]

theorem map_fst_verdicts (pending : List Int) (step : Traffic) :
    (step.verdicts pending).map (·.1) = pending.filter fun id => (step.verdict? id).isSome := by
  induction pending with
  | nil => rfl
  | cons id pending ih =>
    cases hverdict : step.verdict? id <;> simp_all [Traffic.verdicts]

/-- With a verdict on one request only, there is at most one. -/
theorem verdicts_of_one {pending : List Int} (hnodup : pending.Nodup) {step : Traffic}
    (hone : ∀ id', step.verdict? id' = if id' = id then some reply else none) :
    step.verdicts pending = if id ∈ pending then [(id, reply)] else [] := by
  have hfilter : step.verdicts pending = (pending.filter (· = id)).map (·, reply) := by
    clear hnodup
    induction pending with
    | nil => rfl
    | cons id' pending ih =>
      by_cases hid : id' = id <;> simp_all [Traffic.verdicts]
  rw [hfilter, List.filter_eq]
  split
  · rename_i hmem
    rw [List.count_eq_one_of_mem hnodup hmem]
    rfl
  · rename_i hmem
    rw [List.count_eq_zero_of_not_mem hmem]
    rfl

theorem settle_pending (l : Link) (id : Int) (reply : Reply) :
    (l.settle id reply).1.pending = l.pending.filter fun p => p ≠ id := by
  unfold settle
  split
  · rfl
  · rename_i hid
    refine (List.filter_eq_self.mpr fun p hp => ?_).symm
    simp only [ne_eq, decide_not, Bool.not_eq_true', decide_eq_false_iff_not]
    rintro rfl
    exact hid (List.contains_iff_mem.mpr hp)

theorem settle_settled (l : Link) (id : Int) (reply : Reply) :
    (l.settle id reply).2.settled = if id ∈ l.pending then [(id, reply)] else [] := by
  unfold settle
  simp only [List.contains_iff_mem]
  split <;> rfl

theorem settle_nextId (l : Link) (id : Int) (reply : Reply) :
    (l.settle id reply).1.nextId = l.nextId := by
  unfold settle
  split <;> rfl

theorem settle_send (l : Link) (id : Int) (reply : Reply) : (l.settle id reply).2.send = [] := by
  unfold settle
  split <;> rfl

/-- To expire is to be settled, with a message to the server. -/
theorem expire_eq (l : Link) (id : Int) (limit : Nat) :
    l.expire id limit =
      ((l.settle id (.error (.timeout limit))).1,
        ⟨if id ∈ l.pending then [cancelRequest id] else [],
          (l.settle id (.error (.timeout limit))).2.settled⟩) := by
  unfold expire settle
  simp only [List.contains_iff_mem]
  split <;> rfl

/-- A message is a request of the server, a response to one of ours, or neither. -/
theorem receive_cases (l : Link) (message : Json) :
    (∃ id, responseTo? message = none ∧ answerTo? message = some (Message.response id .null) ∧
      l.receive message = (l, ⟨[Message.response id .null], []⟩)) ∨
    (∃ n, responseTo? message = some n ∧ answerTo? message = none ∧
      l.receive message = l.settle n (replyOf message)) ∨
    responseTo? message = none ∧ answerTo? message = none ∧ l.receive message = (l, .none) := by
  unfold receive responseTo? isResponse answerTo?
  cases hmethod : methodOf? message with
  | some method =>
    cases hid : idOf? message with
    | some id => exact .inl ⟨id, by simp, rfl, rfl⟩
    | none => exact .inr (.inr ⟨by simp, rfl, rfl⟩)
  | none =>
    cases hid : idOf? message with
    | none => exact .inr (.inr ⟨by simp, rfl, rfl⟩)
    | some id =>
      cases hint : id.asInt64? with
      | some n => exact .inr (.inl ⟨n, by simp [hint], rfl, by simp [hint]⟩)
      | none => exact .inr (.inr ⟨by simp [hint], rfl, by simp [hint]⟩)

/-- The reply in a response is a result or an error of the server. -/
theorem replyOf_cases (message : Json) :
    (∃ result, replyOf message = .ok result) ∨
      ∃ code text, replyOf message = .error (.server code text) := by
  unfold replyOf serverError
  split
  · exact .inr ⟨_, _, rfl⟩
  · exact .inl ⟨_, rfl⟩

theorem verdict?_receive_none (h : responseTo? message = none) (id : Int) :
    (Traffic.receive message).verdict? id = none := by
  simp only [Traffic.verdict?, h, reduceCtorEq, if_false]

theorem verdict?_receive_some {n : Int} (h : responseTo? message = some n) (id : Int) :
    (Traffic.receive message).verdict? id = if id = n then some (replyOf message) else none := by
  simp only [Traffic.verdict?, h, Option.some.injEq, eq_comm]

theorem verdict?_expire (id' : Int) (limit : Nat) (id : Int) :
    (Traffic.expire id' limit).verdict? id =
      if id = id' then some (.error (.timeout limit)) else none := by
  simp only [Traffic.verdict?, eq_comm]

theorem verdicts_of_none {pending : List Int} {step : Traffic}
    (hnone : ∀ id, step.verdict? id = none) :
    step.verdicts pending = [] := by
  simp [Traffic.verdicts, hnone]

/-- **A step settles the waiting requests it has a verdict on.** -/
theorem step_settled (h : g.link.pending.Nodup) (step : Traffic) :
    (g.step step).settled = g.settled ++ step.verdicts g.link.pending := by
  cases step with
  | issue method params => rw [verdicts_of_none fun _ => rfl, List.append_nil]; rfl
  | sync uri text => rw [verdicts_of_none fun _ => rfl, List.append_nil]; rfl
  | finish => simp [Log.step, Log.apply, finish, Traffic.verdicts, Traffic.verdict?]
  | expire id limit =>
    rw [verdicts_of_one h (verdict?_expire id limit), ← settle_settled, Log.step, expire_eq]
    rfl
  | receive message =>
    show g.settled ++ (g.link.receive message).2.settled = _
    obtain ⟨_, hto, -, heq⟩ | ⟨n, hto, -, heq⟩ | ⟨hto, -, heq⟩ := receive_cases g.link message <;>
      rw [heq]
    · rw [verdicts_of_none (verdict?_receive_none hto)]
    · rw [verdicts_of_one h (verdict?_receive_some hto), settle_settled]
    · rw [verdicts_of_none (verdict?_receive_none hto)]
      rfl

theorem filter_of_none {pending : List Int} {step : Traffic}
    (hnone : ∀ id, step.verdict? id = none) :
    (pending.filter fun id => (step.verdict? id).isNone) = pending := by
  simp [hnone]

theorem filter_of_one {pending : List Int} {step : Traffic}
    (hone : ∀ id', step.verdict? id' = if id' = id then some reply else none) :
    (pending.filter fun id => (step.verdict? id).isNone) = pending.filter fun p => p ≠ id := by
  refine List.filter_congr fun p _ => ?_
  by_cases hp : p = id <;> simp [hone, hp]

theorem sync_pending (l : Link) (uri : Uri) (text : String) :
    (l.sync uri text).1.pending = l.pending ∧ (l.sync uri text).1.nextId = l.nextId := by
  unfold sync
  split <;> exact ⟨rfl, rfl⟩

/-- The other requests go on waiting, with the one that the step issues. -/
theorem step_pending (g : Log) (step : Traffic) :
    (g.step step).link.pending =
      (g.link.pending.filter fun id => (step.verdict? id).isNone) ++ step.issues g.link := by
  cases step with
  | issue method params => rw [filter_of_none fun _ => rfl]; rfl
  | sync uri text =>
    rw [filter_of_none fun _ => rfl]
    exact (sync_pending g.link uri text).1.trans (List.append_nil _).symm
  | finish => simp [Log.step, Log.apply, finish, Traffic.verdict?, Traffic.issues]
  | expire id limit =>
    rw [filter_of_one (verdict?_expire id limit), Log.step, expire_eq]
    exact (settle_pending _ _ _).trans (List.append_nil _).symm
  | receive message =>
    refine Eq.trans ?_ (List.append_nil _).symm
    show (g.link.receive message).1.pending = _
    obtain ⟨_, hto, -, heq⟩ | ⟨n, hto, -, heq⟩ | ⟨hto, -, heq⟩ := receive_cases g.link message <;>
      rw [heq]
    · rw [filter_of_none (verdict?_receive_none hto)]
    · rw [filter_of_one (verdict?_receive_some hto), settle_pending]
    · rw [filter_of_none (verdict?_receive_none hto)]

theorem step_issued (g : Log) (step : Traffic) :
    (g.step step).issued = g.issued ++ step.issues g.link := by
  cases step <;> simp [Log.step, Log.apply, Traffic.issues, request]

theorem step_nextId (g : Log) (step : Traffic) :
    (g.step step).link.nextId = g.link.nextId + (step.issues g.link).length := by
  cases step with
  | issue method params => rfl
  | sync uri text => simpa [Traffic.issues, Log.step] using (sync_pending g.link uri text).2
  | finish => simp [Traffic.issues, Log.step, Log.apply, finish]
  | expire id limit => simp [Traffic.issues, Log.step, Log.apply, expire_eq, settle_nextId]
  | receive message =>
    show (g.link.receive message).1.nextId = _
    obtain ⟨_, -, -, heq⟩ | ⟨n, -, -, heq⟩ | ⟨-, -, heq⟩ := receive_cases g.link message <;>
      simp [heq, settle_nextId, Traffic.issues]

/-! ## Whole runs -/

/-- What holds of the requests of a connection at all times. -/
structure Log.Sound (g : Log) : Prop where
  issued_lt : ∀ id ∈ g.issued, id < g.link.nextId
  issued_nodup : g.issued.Nodup
  settled_issued : ∀ id ∈ g.settled.map (·.1), id ∈ g.issued
  settled_nodup : (g.settled.map (·.1)).Nodup
  pending_eq : g.link.pending = g.issued.filter fun id => id ∉ g.settled.map (·.1)

theorem Log.Sound.mem_pending (h : g.Sound) :
    id ∈ g.link.pending ↔ id ∈ g.issued ∧ id ∉ g.settled.map (·.1) := by
  rw [h.pending_eq, List.mem_filter, decide_eq_true_iff]

theorem Log.Sound.pending_nodup (h : g.Sound) : g.link.pending.Nodup := by
  rw [h.pending_eq]
  exact h.issued_nodup.filter _

theorem mem_issues {step : Traffic} (h : id ∈ step.issues l) : id = l.nextId := by
  cases step with
  | issue method params => exact List.mem_singleton.mp h
  | _ => cases h

theorem issues_nodup (l : Link) (step : Traffic) : (step.issues l).Nodup := by
  cases step with
  | issue method params => exact List.nodup_singleton _
  | _ => exact List.nodup_nil

/-- A new request has a new number. -/
theorem Log.Sound.issues_fresh (h : g.Sound) {step : Traffic} (hid : id ∈ step.issues g.link) :
    id ∉ g.issued := by
  intro hissued
  have hlt := h.issued_lt id hissued
  have hnext := mem_issues hid
  omega

theorem Log.Sound.settled_step (h : g.Sound) (step : Traffic) :
    (g.step step).settled.map (·.1) =
      g.settled.map (·.1) ++ g.link.pending.filter fun id => (step.verdict? id).isSome := by
  rw [step_settled h.pending_nodup, List.map_append, map_fst_verdicts]

theorem Log.Sound.issued_of_settled (h : g.Sound) {step : Traffic}
    (hid : id ∈ (g.step step).settled.map (·.1)) : id ∈ g.issued := by
  rw [h.settled_step, List.mem_append, List.mem_filter, h.mem_pending] at hid
  obtain hold | ⟨⟨hissued, -⟩, -⟩ := hid
  · exact h.settled_issued id hold
  · exact hissued

/-- Of the issued requests, those settled by a step are those that waited and got a verdict. -/
theorem Log.Sound.pending_step (h : g.Sound) (step : Traffic) :
    (g.step step).link.pending =
      (g.step step).issued.filter fun id => id ∉ (g.step step).settled.map (·.1) := by
  have hissues : (step.issues g.link).filter (fun id => id ∉ (g.step step).settled.map (·.1)) =
      step.issues g.link := by
    refine List.filter_eq_self.mpr fun id hid => decide_eq_true fun hsettled => ?_
    exact h.issues_fresh hid (h.issued_of_settled hsettled)
  rw [step_issued, List.filter_append, hissues, step_pending, h.pending_eq, List.filter_filter]
  congr 1
  refine List.filter_congr fun id hid => ?_
  by_cases hold : id ∈ g.settled.map (·.1)
  · simp [h.settled_step, hold]
  · have hpending : id ∈ g.link.pending := h.mem_pending.mpr ⟨hid, hold⟩
    rw [h.settled_step]
    cases hverdict : step.verdict? id <;> simp_all

theorem Log.Sound.step (h : g.Sound) (step : Traffic) : (g.step step).Sound := by
  refine ⟨?_, ?_, ?_, ?_, ?_⟩
  · intro id hid
    rw [step_nextId]
    rw [step_issued, List.mem_append] at hid
    obtain hold | hnew := hid
    · have hlt := h.issued_lt id hold
      omega
    · have hpos := List.length_pos_of_mem hnew
      rw [mem_issues hnew]
      omega
  · rw [step_issued]
    exact h.issued_nodup.append (issues_nodup _ _) fun id hold hid => h.issues_fresh hid hold
  · intro id hid
    rw [step_issued]
    exact List.mem_append_left _ (h.issued_of_settled hid)
  · rw [h.settled_step]
    refine h.settled_nodup.append (h.pending_nodup.filter _) fun id hold hid => ?_
    exact (h.mem_pending.mp (List.mem_filter.mp hid).1).2 hold
  · exact h.pending_step step

theorem sound_after (steps : List Traffic) : (Log.after steps).Sound := by
  induction steps using List.reverseRecOn with
  | nil => exact ⟨nofun, .nil, nofun, .nil, rfl⟩
  | append_singleton steps step ih =>
    rw [after_concat]
    exact ih.step step

theorem mem_issued_iff :
    id ∈ (Log.after steps).issued ↔ ∃ before method params rest,
      steps = before ++ .issue method params :: rest ∧ (Log.after before).link.nextId = id := by
  induction steps using List.reverseRecOn with
  | nil => simp [Log.after]
  | append_singleton steps step ih =>
    rw [after_concat, step_issued, List.mem_append, ih]
    constructor
    · rintro (⟨before, method, params, rest, rfl, hid⟩ | hid)
      · exact ⟨before, method, params, rest ++ [step], by simp, hid⟩
      · cases step with
        | issue method params =>
          exact ⟨steps, method, params, [], rfl, (List.mem_singleton.mp hid).symm⟩
        | _ => cases hid
    · rintro ⟨before, method, params, rest, hsteps, hid⟩
      obtain rfl | ⟨rest, last, rfl⟩ := rest.eq_nil_or_concat
      · obtain ⟨rfl, hlast⟩ := List.append_inj' hsteps rfl
        cases hlast
        exact .inr (List.mem_singleton.mpr hid.symm)
      · rw [List.concat_eq_append, ← List.cons_append, ← List.append_assoc] at hsteps
        obtain ⟨rfl, -⟩ := List.append_inj' hsteps rfl
        exact .inl ⟨before, method, params, rest, rfl, hid⟩

/-- **The first verdict counts.**  A request waits until a step has a verdict on it, and is settled
with that verdict. -/
theorem fate {before : List Traffic} (hid : (Log.after before).link.nextId = id) (method : String)
    (params : Json) (rest : List Traffic) :
    (id ∈ (Log.after (before ++ .issue method params :: rest)).link.pending ↔
      rest.findSome? (·.verdict? id) = none) ∧
    ∀ reply, (id, reply) ∈ (Log.after (before ++ .issue method params :: rest)).settled ↔
      rest.findSome? (·.verdict? id) = some reply := by
  have hbefore := sound_after before
  induction rest using List.reverseRecOn with
  | nil =>
    have hfresh : id ∉ (Log.after before).issued := by
      intro hissued
      have hlt := hbefore.issued_lt id hissued
      omega
    rw [after_concat]
    constructor
    · rw [step_pending, List.mem_append]
      exact iff_of_true (.inr (List.mem_singleton.mpr hid.symm)) rfl
    · refine fun reply => iff_of_false (fun hmem => hfresh ?_) nofun
      exact hbefore.settled_issued id (List.mem_map_of_mem hmem)
  | append_singleton rest step ih =>
    obtain ⟨hpending, hsettled⟩ := ih
    rw [← List.cons_append, ← List.append_assoc, after_concat, List.findSome?_append,
      List.findSome?_singleton]
    have hsound := sound_after (before ++ .issue method params :: rest)
    have hold : id ∉ step.issues (Log.after (before ++ .issue method params :: rest)).link :=
      fun hissues => hsound.issues_fresh hissues
        (mem_issued_iff.mpr ⟨before, method, params, rest, rfl, hid⟩)
    constructor
    · rw [step_pending, List.mem_append, List.mem_filter, hpending]
      simp [hold, Option.or_eq_none_iff]
    · intro reply
      -- the last step settles the request only if it still waits, so if no step before had a verdict
      rw [step_settled hsound.pending_nodup, List.mem_append, mem_verdicts, hsettled, hpending]
      cases rest.findSome? (·.verdict? id) <;> simp

/-! ## What is sent -/

theorem sync_message (l : Link) (uri : Uri) (text : String) :
    isCancel (l.sync uri text).2 = false ∧ isResponse (l.sync uri text).2 = false := by
  unfold sync
  split <;> simp [isCancel, isResponse, didOpen, didChange]

theorem timedOut?_replyOf (id : Int) (message : Json) : timedOut? (id, replyOf message) = none := by
  obtain ⟨result, h⟩ | ⟨code, text, h⟩ := replyOf_cases message <;> rw [h] <;> rfl

/-- The messages that take requests back are those for the requests that expire. -/
theorem step_cancels (h : g.link.pending.Nodup) (step : Traffic) :
    (g.step step).sent.filter isCancel = g.sent.filter isCancel ++
      ((step.verdicts g.link.pending).filterMap timedOut?).map cancelRequest := by
  cases step with
  | issue method params =>
    rw [verdicts_of_none fun _ => rfl]
    simp [Log.step, request, isCancel]
  | sync uri text =>
    rw [verdicts_of_none fun _ => rfl]
    simp [Log.step, (sync_message g.link uri text).1]
  | finish =>
    simp [Log.step, Log.apply, finish, Traffic.verdicts, Traffic.verdict?, timedOut?]
  | expire id limit =>
    rw [verdicts_of_one h (verdict?_expire id limit), Log.step, expire_eq]
    by_cases hid : id ∈ g.link.pending <;>
      simp [Log.apply, hid, isCancel, cancelRequest, timedOut?]
  | receive message =>
    simp only [Log.step, Log.apply, List.filter_append]
    congr 1
    obtain ⟨id, hto, -, heq⟩ | ⟨n, hto, -, heq⟩ | ⟨hto, -, heq⟩ := receive_cases g.link message <;>
      rw [heq]
    · simp [verdicts_of_none (verdict?_receive_none hto), isCancel]
    · rw [verdicts_of_one h (verdict?_receive_some hto), settle_send]
      split <;> simp [timedOut?_replyOf]
    · simp [verdicts_of_none (verdict?_receive_none hto), LinkEffect.none]

/-- The responses are the answers to the requests of the server. -/
theorem step_answers (g : Log) (step : Traffic) :
    (g.step step).sent.filter isResponse = g.sent.filter isResponse ++ step.answer?.toList := by
  cases step with
  | issue method params => simp [Log.step, request, isResponse, Traffic.answer?]
  | sync uri text => simp [Log.step, (sync_message g.link uri text).2, Traffic.answer?]
  | finish => simp [Log.step, Log.apply, finish, Traffic.answer?]
  | expire id limit =>
    rw [Log.step, expire_eq]
    by_cases hid : id ∈ g.link.pending <;>
      simp [Log.apply, hid, isResponse, cancelRequest, Traffic.answer?]
  | receive message =>
    simp only [Log.step, Log.apply, List.filter_append, Traffic.answer?]
    congr 1
    obtain ⟨id, -, hanswer, heq⟩ | ⟨n, -, hanswer, heq⟩ | ⟨-, hanswer, heq⟩ :=
      receive_cases g.link message <;> rw [heq, hanswer]
    · simp [isResponse]
    · simp [settle_send]
    · rfl

theorem cancels_after (steps : List Traffic) :
    (Log.after steps).sent.filter isCancel =
      ((Log.after steps).settled.filterMap timedOut?).map cancelRequest := by
  induction steps using List.reverseRecOn with
  | nil => rfl
  | append_singleton steps step ih =>
    have hnodup := (sound_after steps).pending_nodup
    rw [after_concat, step_cancels hnodup, step_settled hnodup, ih, List.filterMap_append,
      List.map_append]

theorem answers_after (steps : List Traffic) :
    (Log.after steps).sent.filter isResponse = steps.filterMap Traffic.answer? := by
  induction steps using List.reverseRecOn with
  | nil => rfl
  | append_singleton steps step ih =>
    rw [after_concat, step_answers, ih, List.filterMap_append]
    cases hanswer : step.answer? <;> simp [hanswer]

/-! ## The theorem -/

/-- Only a response to a request, its expiry and the end of the stream have a verdict on it. -/
theorem verdict?_cases {step : Traffic} (h : step.verdict? id = some reply) :
    (∃ message, step = .receive message ∧ responseTo? message = some id ∧ reply = replyOf message ∧
      ((∃ result, reply = .ok result) ∨ ∃ code text, reply = .error (.server code text))) ∨
    (∃ limit, step = .expire id limit ∧ reply = .error (.timeout limit)) ∨
    step = .finish ∧ reply = .error .closed := by
  cases step with
  | receive message =>
    simp only [Traffic.verdict?, Option.ite_none_right_eq_some, Option.some.injEq] at h
    obtain ⟨hto, rfl⟩ := h
    exact .inl ⟨message, rfl, hto, rfl, replyOf_cases message⟩
  | expire id' limit =>
    simp only [Traffic.verdict?, Option.ite_none_right_eq_some, Option.some.injEq] at h
    obtain ⟨rfl, rfl⟩ := h
    exact .inr (.inl ⟨limit, rfl, rfl⟩)
  | finish => exact .inr (.inr ⟨rfl, (Option.some.inj h).symm⟩)
  | _ => cases h

/-- A response to no request that waits changes nothing. -/
theorem receive_of_unknown (hmethod : isResponse message = true)
    (hunknown : ∀ id ∈ l.pending, responseTo? message ≠ some id) :
    l.receive message = (l, .none) := by
  obtain ⟨id, -, hanswer, -⟩ | ⟨n, hto, -, heq⟩ | ⟨-, -, heq⟩ := receive_cases l message
  · have hnone : methodOf? message = none := of_decide_eq_true hmethod
    rw [answerTo?, hnone] at hanswer
    split at hanswer <;> simp_all
  · have hn : n ∉ l.pending := fun hmem => hunknown n hmem hto
    rw [heq, settle, if_neg (by simpa using hn)]
  · exact heq

/-- **Requests on a connection.**  Let requests be issued, documents brought up to date, messages come
in, requests expire and the stream end, in any order.

1. No two requests have the same number, and none is settled twice.
2. The requests that wait are those issued and not settled, in the order they were issued.
3. A request is settled by the first step after it was issued that has a verdict on it.  A response
   to it settles it with the reply in that response, which is a result or an error of the server; its
   expiry settles it as timed out; the end of the stream settles it as closed.
4. The server is asked once to forget each request that timed out, and no other one.
5. The server gets `null` for each message with an id and a method, in order, and no other response.
6. A response to no request that waits changes nothing. -/
theorem request_routing (steps : List Traffic) :
    ((Log.after steps).issued.Nodup ∧ ((Log.after steps).settled.map (·.1)).Nodup) ∧
    (Log.after steps).link.pending =
      (Log.after steps).issued.filter (fun id => id ∉ (Log.after steps).settled.map (·.1)) ∧
    (∀ id reply, (id, reply) ∈ (Log.after steps).settled ↔
      ∃ before method params early step late,
        steps = before ++ .issue method params :: (early ++ step :: late) ∧
        (Log.after before).link.nextId = id ∧
        (∀ other ∈ early, other.verdict? id = none) ∧ step.verdict? id = some reply) ∧
    (∀ id reply (step : Traffic), step.verdict? id = some reply →
      (∃ message, step = .receive message ∧ responseTo? message = some id ∧ reply = replyOf message ∧
        ((∃ result, reply = .ok result) ∨ ∃ code text, reply = .error (.server code text))) ∨
      (∃ limit, step = .expire id limit ∧ reply = .error (.timeout limit)) ∨
      step = .finish ∧ reply = .error .closed) ∧
    (Log.after steps).sent.filter isCancel =
      ((Log.after steps).settled.filterMap timedOut?).map cancelRequest ∧
    (Log.after steps).sent.filter isResponse = steps.filterMap Traffic.answer? ∧
    (∀ message, isResponse message = true →
      (∀ id ∈ (Log.after steps).link.pending, responseTo? message ≠ some id) →
      (Log.after steps).link.receive message = ((Log.after steps).link, .none)) := by
  have hsound := sound_after steps
  refine ⟨⟨hsound.issued_nodup, hsound.settled_nodup⟩, hsound.pending_eq, fun id reply => ?_,
    fun id reply step => verdict?_cases, cancels_after steps, answers_after steps,
    fun message => receive_of_unknown⟩
  constructor
  · intro hmem
    obtain ⟨before, method, params, rest, rfl, hid⟩ :=
      mem_issued_iff.mp (hsound.settled_issued id (List.mem_map_of_mem hmem))
    obtain ⟨early, step, late, rfl, hstep, hearly⟩ :=
      List.findSome?_eq_some_iff.mp (((fate hid method params rest).2 reply).mp hmem)
    exact ⟨before, method, params, early, step, late, rfl, hid, hearly, hstep⟩
  · rintro ⟨before, method, params, early, step, late, rfl, hid, hearly, hstep⟩
    exact ((fate hid method params _).2 reply).mpr
      (List.findSome?_eq_some_iff.mpr ⟨early, step, late, rfl, hstep, hearly⟩)

/-- Of two requests the second is answered first; the response to the first comes too late, after a
request of the server that has its number. -/
def crossingTraffic : List Traffic :=
  [.issue "textDocument/hover" .null, .issue "textDocument/completion" .null,
    .receive (.obj [("id", .int 2), ("result", .str "items")]), .expire 1 200,
    .receive (.obj [("id", .int 1), ("method", .str "workspace/configuration")])]

theorem request_routing_crossingTraffic :
    (1, .error (.timeout 200)) ∈ (Log.after crossingTraffic).settled ∧
      (2, .ok (.str "items")) ∈ (Log.after crossingTraffic).settled ∧
      (Log.after crossingTraffic).link.receive (.obj [("id", .int 1), ("result", .null)]) =
        ((Log.after crossingTraffic).link, .none) := by
  obtain ⟨-, -, hsettled, -, -, -, hunknown⟩ := request_routing crossingTraffic
  refine ⟨?_, ?_, ?_⟩
  · exact (hsettled _ _).mpr ⟨[], _, _, [_, _], .expire 1 200, crossingTraffic.drop 4, rfl, rfl,
      List.forall_mem_cons.mpr ⟨rfl, List.forall_mem_singleton.mpr rfl⟩, rfl⟩
  · exact (hsettled _ _).mpr ⟨crossingTraffic.take 1, _, _, [], _, crossingTraffic.drop 3, rfl, rfl,
      nofun, rfl⟩
  · exact hunknown _ rfl nofun

end Host.Link

end DialectBridge
