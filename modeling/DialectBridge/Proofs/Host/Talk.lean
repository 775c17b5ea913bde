import DialectBridge.Host.Exchange
import DialectBridge.Proofs.Host.Link

/-!
# Conversations with a language server

A conversation is a greeting and its answer, then one exchange after the other, each of them the text
of a document and the request about it.  Between the exchanges stand messages that belong to no
document; within an exchange, only requests taken back and answers to the server.

* `documentOf?`, `requestOf?` — the document that a message brings, or is a request about;
* `sync_counted` — a link that has counted the texts of a document numbers the next one;
* `Talk` — the conversations that keep to the order;
* `Talk.initialized_before`, `Talk.revisions_of`, `Talk.request_of` — what follows for their messages.
-/

namespace DialectBridge.Host

/-! ## Messages about documents -/

namespace Link

/-- The written address that the parameters of a message name. -/
def address? (params : Json) : Option String :=
  (params.get? "textDocument").bind fun document =>
    (document.get? "uri").bind Json.asString?

/-- The document whose text a message brings. -/
def documentOf? (message : Json) : Option String :=
  if idOf? message = none ∧ (methodOf? message = some "textDocument/didOpen" ∨
      methodOf? message = some "textDocument/didChange") then
    (message.get? "params").bind address?
  else none

/-- The document that a request is about. -/
def requestOf? (message : Json) : Option String :=
  if (idOf? message).isSome ∧ (methodOf? message).isSome then
    (message.get? "params").bind address?
  else none

/-- The version that a message gives to its document. -/
def versionOf? (message : Json) : Option Int :=
  (message.get? "params").bind fun params =>
    (params.get? "textDocument").bind fun document =>
      (document.get? "version").bind Json.asInt64?

/-- The message that brings a version of a document.  The version is written with 32 bits. -/
def document (uri : Uri) (version : Nat) (text : String) : Json :=
  if version = 1 then didOpen uri text else didChange uri (Int32.ofNat version) text

/-- A document with its texts in order: opened with version 1, changed with versions 2, 3, 4, … as
32 bits write them. -/
def revisions (uri : Uri) : List String → List Json
  | [] => []
  | text :: later =>
    didOpen uri text :: later.mapIdx fun i text => didChange uri (Int32.ofNat (i + 2)) text

@[simp] theorem params_request (id : Int) (method : String) (params : Json) :
    (Message.request id method params).get? "params" = some params := by
  simp [Message.request, Message.version, Json.get?_object]

@[simp] theorem params_notification (method : String) (params : Json) :
    (Message.notification method params).get? "params" = some params := by
  simp [Message.notification, Message.version, Json.get?_object]

@[simp] theorem documentOf?_request (id : Int) (method : String) (params : Json) :
    documentOf? (Message.request id method params) = none := by
  simp [documentOf?]

@[simp] theorem requestOf?_request (id : Int) (method : String) (params : Json) :
    requestOf? (Message.request id method params) = address? params := by
  simp [requestOf?]

@[simp] theorem requestOf?_notification (method : String) (params : Json) :
    requestOf? (Message.notification method params) = none := by
  simp [requestOf?]

@[simp] theorem documentOf?_initialized : documentOf? Request.initialized = none := by
  simp [Request.initialized, documentOf?]

@[simp] theorem documentOf?_document (uri : Uri) (version : Nat) (text : String) :
    documentOf? (document uri version text) = some uri.text := by
  unfold document
  split <;> simp [documentOf?, didOpen, didChange, address?, Json.get?_object, Json.asString?]

@[simp] theorem requestOf?_document (uri : Uri) (version : Nat) (text : String) :
    requestOf? (document uri version text) = none := by
  unfold document
  split <;> simp [didOpen, didChange]

theorem document_congr {uri uri' : Uri} (h : uri.text = uri'.text) (version : Nat) (text : String) :
    document uri version text = document uri' version text := by
  unfold document didOpen didChange
  rw [h]

theorem revisions_concat (uri : Uri) (texts : List String) (text : String) :
    revisions uri (texts ++ [text]) =
      revisions uri texts ++ [document uri (texts.length + 1) text] := by
  cases texts with
  | nil => rfl
  | cons first later => simp [revisions, document, List.mapIdx_concat, -Int32.ofNat_add]

theorem length_revisions (uri : Uri) (texts : List String) :
    (revisions uri texts).length = texts.length := by
  cases texts <;> simp [revisions]

theorem versionOf?_document (uri : Uri) {version : Nat} (h : version < 2 ^ 31) (text : String) :
    versionOf? (document uri version text) = some (version : Int) := by
  unfold document
  split
  · rename_i hfirst
    subst hfirst
    simp [versionOf?, didOpen, Json.get?_object, Json.nat, Json.asInt64?, Int64.minValue,
      Int64.maxValue]
  · simp [versionOf?, didChange, Json.get?_object, Json.asInt64?, Int32.toInt_ofNat_of_lt h,
      Int64.minValue, Int64.maxValue]
    omega

/-- Versions do not wrap before there are too many of them for 31 bits. -/
theorem versions_revisions (uri : Uri) {texts : List String} (h : texts.length < 2 ^ 31) :
    (revisions uri texts).map versionOf? =
      (List.range' 1 texts.length).map fun version : Nat => some (version : Int) := by
  induction texts using List.reverseRecOn with
  | nil => rfl
  | append_singleton texts text ih =>
    rw [List.length_append, List.length_singleton] at h
    rw [revisions_concat, List.map_append, ih (by omega), List.length_append, List.length_singleton,
      List.range'_concat, List.map_append, List.map_singleton, versionOf?_document uri (by omega)]
    simp [Nat.add_comm]

/-- The version that a server has of a document after some texts of it. -/
def counted (n : Nat) : Option Int32 :=
  if n = 0 then none else some (Int32.ofNat n)

theorem version?_setVersion (l : Link) (uri other : Uri) (version : Int32) :
    (l.setVersion uri version).version? other =
      if other.text = uri.text then some version else l.version? other := by
  unfold setVersion version?
  simp only [List.find?_cons]
  by_cases hsame : other.text = uri.text
  · simp [hsame]
  · rw [if_neg hsame, decide_eq_false (Ne.symm hsame)]
    simp only [List.find?_filter]
    congr 2
    funext entry
    by_cases hentry : entry.1 = other.text <;> simp [hentry, hsame]

theorem sync_counted {l : Link} {uri : Uri} {n : Nat} (h : l.version? uri = counted n)
    (text : String) :
    l.sync uri text = (l.setVersion uri (Int32.ofNat (n + 1)), document uri (n + 1) text) := by
  unfold sync
  rw [h]
  unfold counted document
  by_cases hn : n = 0
  · subst hn
    rfl
  · simp [hn, Int32.ofNat_add]

end Link

/-! ## Conversations -/

/-- A message that belongs to no document. -/
def Aside (message : Json) : Prop :=
  Link.documentOf? message = none ∧ Link.requestOf? message = none

/-- A message that may fall between a document and the request about it: a request is taken back, or
the server is answered. -/
def Interjection (message : Json) : Prop :=
  (∃ id, message = Link.cancelRequest id) ∨ ∃ id, message = Message.response id .null

theorem Interjection.aside {message : Json} (h : Interjection message) : Aside message := by
  rcases h with ⟨id, rfl⟩ | ⟨id, rfl⟩
  · simp [Aside, Link.documentOf?, Link.cancelRequest]
  · simp [Aside, Link.documentOf?, Link.requestOf?]

/-- A call on its connection: who made it, and the number of its request. -/
structure Turn where
  caller : Nat
  id : Int
  call : Call

namespace Call

/-- The parameters of a call name the document that it is about. -/
def Proper (call : Call) : Prop :=
  Link.address? call.params = some call.uri.text

def document (call : Call) (version : Nat) : Json :=
  Link.document call.uri version call.text

def request (call : Call) (id : Int) : Json :=
  Message.request id call.method call.params

/-- The calls about a document. -/
def about (calls : List Call) (uri : Uri) : List Call :=
  calls.filter fun call => call.uri.text = uri.text

end Call

/-- Where a conversation stands. -/
inductive Stage where
  /-- The greeting has not been answered. -/
  | greeted
  /-- The next call may come. -/
  | ready
  /-- The document of a call has been brought, and its request is to follow. -/
  | half (holder : Holder)

/-- The messages that may come at any time of a stage. -/
def Stage.Allows : Stage → Json → Prop
  | .half _, message => Interjection message
  | _, message => Aside message

theorem Stage.Allows.aside {stage : Stage} {message : Json} (h : stage.Allows message) :
    Aside message := by
  cases stage with
  | half holder => exact Interjection.aside h
  | _ => exact h

theorem Interjection.allowed {message : Json} (h : Interjection message) (stage : Stage) :
    stage.Allows message := by
  cases stage with
  | half holder => exact h
  | _ => exact h.aside

/-- A conversation that begins with a greeting and keeps to the order: where it stands, the calls whose
documents have been brought, the turns that have been taken, and all messages.  Who has brought a
document may leave without a request. -/
inductive Talk (greeting : Json) : Stage → List Call → List Turn → List Json → Prop
  | greet : Talk greeting .greeted [] [] [greeting]
  | aside {stage : Stage} {calls : List Call} {turns : List Turn} {log : List Json} {message : Json} :
      Talk greeting stage calls turns log → stage.Allows message →
      Talk greeting stage calls turns (log ++ [message])
  | ready {log : List Json} :
      Talk greeting .greeted [] [] log → Talk greeting .ready [] [] (log ++ [Request.initialized])
  | bring {calls : List Call} {turns : List Turn} {log : List Json} (h : Holder) :
      Talk greeting .ready calls turns log →
      Talk greeting (.half h) (calls ++ [h.call]) turns
        (log ++ [h.call.document ((Call.about calls h.call.uri).length + 1)])
  | pose {calls : List Call} {turns : List Turn} {log : List Json} {h : Holder} (id : Int) :
      Talk greeting (.half h) calls turns log → h.call.Proper →
      Talk greeting .ready calls (turns ++ [⟨h.caller, id, h.call⟩]) (log ++ [h.call.request id])
  | leave {calls : List Call} {turns : List Turn} {log : List Json} {h : Holder} :
      Talk greeting (.half h) calls turns log → Talk greeting .ready calls turns log

theorem eq_of_concat_eq {α : Type} {log before after : List α} {x y : α}
    (h : log ++ [x] = before ++ y :: after) :
    (before = log ∧ y = x) ∨ ∃ after', log = before ++ y :: after' := by
  rcases List.eq_nil_or_concat after with rfl | ⟨after', z, rfl⟩
  · obtain ⟨rfl, hlast⟩ := List.append_inj' h rfl
    simp only [List.cons.injEq, and_true] at hlast
    exact .inl ⟨rfl, hlast.symm⟩
  · right
    refine ⟨after', ?_⟩
    have h' : log ++ [x] = (before ++ y :: after') ++ [z] := by
      rw [h, List.concat_eq_append, List.append_assoc, List.cons_append]
    exact (List.append_inj' h' rfl).1

namespace Talk

variable {greeting message : Json} {stage : Stage} {calls : List Call} {turns : List Turn}
  {log before after : List Json}

theorem head (h : Talk greeting stage calls turns log) : log.head? = some greeting := by
  induction h with
  | greet => rfl
  | aside _ _ ih => simp [ih]
  | ready _ ih => simp [ih]
  | bring h _ ih => simp [ih]
  | pose id _ _ ih => simp [ih]
  | leave _ ih => exact ih

theorem nil_of_greeted (h : Talk greeting .greeted calls turns log) : calls = [] ∧ turns = [] := by
  generalize hstage : Stage.greeted = stage at h
  induction h with
  | greet => exact ⟨rfl, rfl⟩
  | aside _ _ ih => exact ih hstage
  | _ => cases hstage

theorem initialized_mem (h : Talk greeting stage calls turns log) (hstage : stage ≠ .greeted) :
    Request.initialized ∈ log := by
  induction h with
  | greet => exact absurd rfl hstage
  | aside _ _ ih => exact List.mem_append_left _ (ih hstage)
  | ready _ _ => exact List.mem_append_right _ (List.mem_singleton_self _)
  | bring h _ ih => exact List.mem_append_left _ (ih Stage.noConfusion)
  | pose id _ _ ih => exact List.mem_append_left _ (ih Stage.noConfusion)
  | leave _ ih => exact ih Stage.noConfusion

/-- No document is brought before the greeting has been answered. -/
theorem initialized_before (hgreeting : Aside greeting) (h : Talk greeting stage calls turns log)
    (hlog : log = before ++ message :: after) (hdocument : Link.documentOf? message ≠ none) :
    Request.initialized ∈ before := by
  induction h generalizing after with
  | greet =>
    have hmem : message ∈ [greeting] := by rw [hlog]; simp
    rw [List.mem_singleton.mp hmem] at hdocument
    exact absurd hgreeting.1 hdocument
  | aside _ hallows ih =>
    rcases eq_of_concat_eq hlog with ⟨-, rfl⟩ | ⟨after', hlog'⟩
    · exact absurd hallows.aside.1 hdocument
    · exact ih hlog'
  | ready _ ih =>
    rcases eq_of_concat_eq hlog with ⟨-, rfl⟩ | ⟨after', hlog'⟩
    · exact absurd Link.documentOf?_initialized hdocument
    · exact ih hlog'
  | bring h htalk ih =>
    rcases eq_of_concat_eq hlog with ⟨rfl, -⟩ | ⟨after', hlog'⟩
    · exact htalk.initialized_mem Stage.noConfusion
    · exact ih hlog'
  | pose id _ _ ih =>
    rcases eq_of_concat_eq hlog with ⟨-, rfl⟩ | ⟨after', hlog'⟩
    · exact absurd (Link.documentOf?_request ..) hdocument
    · exact ih hlog'
  | leave _ ih => exact ih hlog

/-- The messages that bring a document number its texts. -/
theorem revisions_of (hgreeting : Aside greeting) (h : Talk greeting stage calls turns log)
    (uri : Uri) :
    (log.filter fun m => Link.documentOf? m = some uri.text) =
      Link.revisions uri ((Call.about calls uri).map Call.text) := by
  induction h with
  | greet => simp [Call.about, Link.revisions, hgreeting.1]
  | aside _ hallows ih => simp [List.filter_append, ih, hallows.aside.1]
  | ready _ ih => simp [List.filter_append, ih]
  | bring h _ ih =>
    rw [List.filter_append, ih]
    simp only [Call.document, Call.about, List.filter_cons, List.filter_nil, List.filter_append,
      Link.documentOf?_document, Option.some.injEq, decide_eq_true_eq]
    by_cases hsame : h.call.uri.text = uri.text
    · rw [if_pos hsame, if_pos hsame, List.map_append, List.map_singleton, Link.revisions_concat,
        List.length_map, Link.document_congr hsame, hsame]
    · rw [if_neg hsame, if_neg hsame, List.append_nil, List.append_nil]
  | pose id _ _ ih => simp [List.filter_append, ih, Call.request]
  | leave _ ih => exact ih

/-- Since a call has brought its document, only interjections have been sent. -/
theorem half_said {h : Holder} (htalk : Talk greeting (.half h) calls turns log) :
    ∃ front version between, log = front ++ h.call.document version :: between ∧
      ∀ m ∈ between, Interjection m := by
  generalize hstage : Stage.half h = stage at htalk
  induction htalk with
  | @aside _ _ _ _ message _ hallows ih =>
    subst hstage
    obtain ⟨front, version, between, rfl, hbetween⟩ := ih rfl
    refine ⟨front, version, between ++ [message], by simp, fun m hm => ?_⟩
    rcases List.mem_append.mp hm with hm | hm
    · exact hbetween m hm
    · exact List.mem_singleton.mp hm ▸ hallows
  | @bring _ _ log h' _ _ =>
    cases hstage
    exact ⟨log, _, [], rfl, fun m hm => absurd hm List.not_mem_nil⟩
  | _ => cases hstage

/-- A request about a document is that of a turn, and follows the text that this turn has brought;
between them are interjections only. -/
theorem request_of (hgreeting : Aside greeting) (h : Talk greeting stage calls turns log)
    (hlog : log = before ++ message :: after) (hrequest : Link.requestOf? message ≠ none) :
    ∃ t ∈ turns, t.call.Proper ∧ message = t.call.request t.id ∧
      ∃ front version between, before = front ++ t.call.document version :: between ∧
        ∀ m ∈ between, Interjection m := by
  induction h generalizing after with
  | greet =>
    have hmem : message ∈ [greeting] := by rw [hlog]; simp
    rw [List.mem_singleton.mp hmem] at hrequest
    exact absurd hgreeting.2 hrequest
  | aside _ hallows ih =>
    rcases eq_of_concat_eq hlog with ⟨-, rfl⟩ | ⟨after', hlog'⟩
    · exact absurd hallows.aside.2 hrequest
    · exact ih hlog'
  | ready _ ih =>
    rcases eq_of_concat_eq hlog with ⟨-, rfl⟩ | ⟨after', hlog'⟩
    · exact absurd (by simp [Request.initialized]) hrequest
    · exact ih hlog'
  | bring h _ ih =>
    rcases eq_of_concat_eq hlog with ⟨-, rfl⟩ | ⟨after', hlog'⟩
    · exact absurd (Link.requestOf?_document ..) hrequest
    · exact ih hlog'
  | @pose _ _ _ h id htalk hproper ih =>
    rcases eq_of_concat_eq hlog with ⟨rfl, rfl⟩ | ⟨after', hlog'⟩
    · exact ⟨⟨h.caller, id, h.call⟩, by simp, hproper, rfl, htalk.half_said⟩
    · obtain ⟨t, ht, hrest⟩ := ih hlog'
      exact ⟨t, List.mem_append_left _ ht, hrest⟩
  | leave _ ih => exact ih hlog

/-- A turn has said its part. -/
theorem turn_said (h : Talk greeting stage calls turns log) {t : Turn} (ht : t ∈ turns) :
    ∃ before version between after,
      log = before ++ t.call.document version :: between ++ t.call.request t.id :: after ∧
        ∀ m ∈ between, Interjection m := by
  induction h with
  | greet => exact absurd ht List.not_mem_nil
  | @aside _ _ _ _ message _ _ ih =>
    obtain ⟨before, version, between, after, rfl, hbetween⟩ := ih ht
    exact ⟨before, version, between, after ++ [message], by simp, hbetween⟩
  | ready _ _ => exact absurd ht List.not_mem_nil
  | @bring calls _ _ h _ ih =>
    obtain ⟨before, version, between, after, rfl, hbetween⟩ := ih ht
    exact ⟨before, version, between, after ++ [h.call.document _], by simp; rfl, hbetween⟩
  | @pose _ _ _ h id htalk _ ih =>
    rcases List.mem_append.mp ht with ht | ht
    · obtain ⟨before, version, between, after, rfl, hbetween⟩ := ih ht
      exact ⟨before, version, between, after ++ [h.call.request id], by simp, hbetween⟩
    · rw [List.mem_singleton.mp ht]
      obtain ⟨front, version, between, rfl, hbetween⟩ := htalk.half_said
      exact ⟨front, version, between, [], rfl, hbetween⟩
  | leave _ ih => exact ih ht

end Talk

end DialectBridge.Host
