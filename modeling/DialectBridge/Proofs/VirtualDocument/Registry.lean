import DialectBridge.Proofs.VirtualDocument
import Mathlib.Data.List.Induction

/-!
# The texts of virtual documents

Texts are published for owners, in any order and as often as one likes.  A virtual document leads back
to its owner and to no other, so each owner has a text of its own: the one published for it last.

* `Uri.EndsSchemes` — all that is asked of a way of reading addresses: then those that were read are
  told apart by their written forms;
* `VirtualDocument.parse?_uri` — the written address of a virtual document is read back as it is;
* `Registry.lookup?_publishAll` — a registry holds the last text of every owner;
* `registry_by_owner` — all of this for every owner and every row of texts.
-/

namespace DialectBridge

/-! ## Written addresses -/

namespace Uri

theorem toLower_ne_colon {c : Char} (h : isSchemeChar c = true) : c.toLower ≠ ':' := by
  intro hcolon
  rw [Text.eq_colon_of_toLower hcolon] at h
  exact absurd h (by decide)

/-- A way of reading addresses ends a scheme at its colon. -/
def EndsSchemes (read : String → Option Uri) : Prop :=
  ∀ s u, read s = some u → ':' ∉ u.scheme.toList

theorem endsSchemes_parse? : EndsSchemes parse? := by
  intro s u h
  unfold parse? ofChars? at h
  simp only at h
  split at h
  · split at h
    · obtain rfl := Option.some.inj h
      rw [String.toList_ofList]
      intro hmem
      obtain ⟨c, hc, hcolon⟩ := List.mem_map.mp hmem
      exact toLower_ne_colon (List.mem_takeWhile_imp hc) hcolon
    · cases h
  · cases h

theorem toList_text (u : Uri) : u.text.toList = u.scheme.toList ++ ':' :: u.rest.toList := by
  simp [text]

/-- Addresses that were read are told apart by their written forms. -/
theorem EndsSchemes.eq_of_text_eq {read : String → Option Uri} (hread : EndsSchemes read)
    {s t : String} {u v : Uri} (hu : read s = some u) (hv : read t = some v)
    (h : u.text = v.text) : u = v := by
  have hlists : u.scheme.toList ++ ':' :: u.rest.toList =
      v.scheme.toList ++ ':' :: v.rest.toList := by
    rw [← toList_text, ← toList_text, h]
  -- both forms are cut at their first colon
  have hcut : ∀ w : Uri, ':' ∉ w.scheme.toList →
      (w.scheme.toList ++ ':' :: w.rest.toList).takeWhile (· ≠ ':') = w.scheme.toList := by
    intro w hw
    rw [List.takeWhile_append_of_pos]
    · simp
    · intro c hc
      have hne : c ≠ ':' := fun hcolon => hw (hcolon ▸ hc)
      simpa using hne
  have hscheme : u.scheme.toList = v.scheme.toList := by
    rw [← hcut u (hread s u hu), ← hcut v (hread t v hv), hlists]
  have hrest : u.rest.toList = v.rest.toList := by
    rw [hscheme] at hlists
    exact List.tail_eq_of_cons_eq (List.append_cancel_left hlists)
  cases u
  cases v
  rw [Uri.mk.injEq]
  exact ⟨String.toList_injective hscheme, String.toList_injective hrest⟩

end Uri

namespace VirtualDocument

/-- The written address of a virtual document is read back as it is. -/
theorem parse?_uri (owner : Uri) : Uri.parse? (uri owner).text = some (uri owner) := by
  have hscheme : scheme.toList.all Uri.isSchemeChar = true := by decide
  have htext := Uri.toList_text (uri owner)
  have hpos : ∀ c ∈ scheme.toList, Uri.isSchemeChar c = true := List.all_eq_true.mp hscheme
  have htake : ((uri owner).text.toList).takeWhile Uri.isSchemeChar = scheme.toList := by
    rw [htext]
    show (scheme.toList ++ _).takeWhile _ = _
    rw [List.takeWhile_append_of_pos hpos]
    simp [Uri.isSchemeChar]
  have hdrop : ((uri owner).text.toList).dropWhile Uri.isSchemeChar =
      ':' :: (uri owner).rest.toList := by
    rw [htext]
    show (scheme.toList ++ _).dropWhile _ = _
    rw [List.dropWhile_append_of_pos hpos]
    simp [Uri.isSchemeChar]
  unfold Uri.parse? Uri.ofChars?
  rw [htake, hdrop]
  simp [uri, scheme]

/-- Virtual documents are told apart by the written addresses of their owners. -/
theorem uri_eq_iff {owner other : Uri} : uri owner = uri other ↔ owner.text = other.text := by
  constructor
  · intro h
    have howner := owner?_uri owner
    rw [h, owner?_uri] at howner
    exact (Option.some.inj howner).symm
  · intro h
    rw [uri, uri, h]

/-! ## Texts by owner -/

namespace Registry

/-- The registry after some texts were published, one after the other. -/
def publishAll (published : List (Uri × String)) : Registry :=
  published.foldl (fun r entry => r.publish entry.1 entry.2) .empty

/-- The texts among those published that are for an owner. -/
def textsFor (published : List (Uri × String)) (owner : Uri) : List String :=
  (published.filter fun entry => entry.1.text = owner.text).map (·.2)

theorem lookup?_publish (r : Registry) (owner : Uri) (text address : String) :
    (r.publish owner text).lookup? address =
      if owner.text = address then some text else r.lookup? address := by
  unfold lookup? publish
  by_cases h : owner.text = address
  · simp [h]
  · rw [if_neg h, List.find?_cons_of_neg (by simpa using h), List.find?_filter]
    congr 2
    funext entry
    by_cases hentry : entry.1 = address <;> simp [hentry, Ne.symm h]

theorem textsFor_concat (published : List (Uri × String)) (entry : Uri × String) (owner : Uri) :
    textsFor (published ++ [entry]) owner =
      textsFor published owner ++ if entry.1.text = owner.text then [entry.2] else [] := by
  unfold textsFor
  by_cases h : entry.1.text = owner.text <;> simp [List.filter_append, h]

/-- **A registry holds the last text of every owner.** -/
theorem lookup?_publishAll (published : List (Uri × String)) (owner : Uri) :
    (publishAll published).lookup? owner.text = (textsFor published owner).getLast? := by
  induction published using List.reverseRecOn with
  | nil => rfl
  | append_singleton published entry ih =>
    have hlast : publishAll (published ++ [entry]) =
        (publishAll published).publish entry.1 entry.2 := by
      simp [publishAll]
    rw [hlast, lookup?_publish, textsFor_concat, ih]
    by_cases h : entry.1.text = owner.text <;> simp [h]

theorem get?_publishAll (published : List (Uri × String)) (owner : Uri) :
    (publishAll published).get? owner = (textsFor published owner).getLast? :=
  lookup?_publishAll published owner

theorem resolve?_publishAll (published : List (Uri × String)) (owner : Uri) :
    (publishAll published).resolve? (uri owner) = (textsFor published owner).getLast? := by
  rw [resolve?, owner?_uri, Option.bind_some, lookup?_publishAll]

/-- Texts of other owners do not count. -/
theorem textsFor_of_ne {owner other : Uri} (h : other.text ≠ owner.text) (text : String)
    (before after : List (Uri × String)) :
    textsFor (before ++ (other, text) :: after) owner = textsFor (before ++ after) owner := by
  simp [textsFor, List.filter_append, h]

end Registry

open Registry

/-- **Every owner has a virtual document of its own, which holds the text published for it last.**  The
address of the virtual document is a written one that reads back, it tells the owner's address, and no
two addresses have one virtual document, however they were read as long as their schemes end at the
colon.  After any row of publications, the virtual document and its owner lead to the last text
published for this owner, if there is one, whatever was published for others. -/
theorem registry_by_owner (owner : Uri) (published : List (Uri × String)) :
    owner? (uri owner) = some owner.text ∧
    Uri.parse? (uri owner).text = some (uri owner) ∧
    (∀ other, uri owner = uri other ↔ owner.text = other.text) ∧
    (∀ read, Uri.EndsSchemes read →
      ∀ s t other, read s = some owner → read t = some other → uri owner = uri other →
        owner = other) ∧
    (publishAll published).resolve? (uri owner) = (textsFor published owner).getLast? ∧
    (publishAll published).get? owner = (textsFor published owner).getLast? ∧
    ∀ before other text after, published = before ++ (other, text) :: after →
      other.text ≠ owner.text →
      (publishAll published).get? owner = (publishAll (before ++ after)).get? owner := by
  refine ⟨owner?_uri owner, parse?_uri owner, fun _ => uri_eq_iff, ?_, resolve?_publishAll ..,
    get?_publishAll .., ?_⟩
  · intro read hread s t other hs ht huri
    exact hread.eq_of_text_eq hs ht (uri_eq_iff.mp huri)
  · intro before other text after hpublished hne
    rw [get?_publishAll, get?_publishAll, hpublished, textsFor_of_ne hne]

/-- An address with escapes, a suffix, a query and a fragment of its own, written in two ways. -/
theorem registry_by_owner_escapedAddress :
    let owner : Uri := ⟨"file", "///a%20b.js?%C3%A9#c"⟩
    let again : Uri := ⟨"file", "///a%20b.js?%C3%A9#c"⟩
    let other : Uri := ⟨"file", "///a%20b.js"⟩
    let published := [(owner, "old"), (other, "x"), (owner, "new"), (other, "y")]
    (Uri.parse? "file:///a%20b.js?%C3%A9#c" = some owner ∧
      Uri.parse? "FILE:///a%20b.js?%C3%A9#c" = some again ∧ uri owner = uri again ∧
      owner = again) ∧
    (publishAll published).resolve? (uri owner) = some "new" ∧
    (publishAll published).get? owner =
      (publishAll [(owner, "old"), (other, "x"), (owner, "new")]).get? owner := by
  intro owner again other published
  have hread : Uri.parse? "file:///a%20b.js?%C3%A9#c" = some owner := by decide
  have hreadAgain : Uri.parse? "FILE:///a%20b.js?%C3%A9#c" = some again := by decide
  obtain ⟨-, -, -, hsame, hresolve, -, hothers⟩ := registry_by_owner owner published
  refine ⟨⟨hread, hreadAgain, rfl, hsame _ Uri.endsSchemes_parse? _ _ again hread hreadAgain rfl⟩,
    hresolve.trans (by decide), ?_⟩
  exact hothers [(owner, "old"), (other, "x"), (owner, "new")] other "y" [] rfl (by decide)

end VirtualDocument

end DialectBridge
