import Toggles.Proofs.Runs

/-! Names of files in bytes.

A name that is a text is this text in UTF-8. The name of a document is a stem with `.json` behind
it, and its version is the stem if that is a text, so a version and the name of its document
determine each other.
-/

set_option autoImplicit false

namespace Toggles

namespace FileName

variable {name stem extension : FileName} {text other : String}

theorem ofText_append (text other : String) : ofText (text ++ other) = ofText text ++ ofText other := by
  simp [ofText]

theorem length_ofText (text : String) : (ofText text).length = text.utf8ByteSize := by
  simp [ofText]

theorem text?_eq_some : name.text? = some text ↔ name = ofText text := by
  rw [text?, Command.fromUTF8?_eq_some, ofText]
  constructor
  · intro same
    rw [← same]
  · rintro rfl
    rfl

theorem text?_ofText (text : String) : (ofText text).text? = some text :=
  text?_eq_some.mpr rfl

theorem ofText_injective (same : ofText text = ofText other) : text = other :=
  Option.some.inj ((text?_ofText text).symm.trans (text?_eq_some.mpr same))

-- The last dot is where the extension begins, unless nothing stands before it.
theorem splitExtension_append (filled : stem ≠ []) (dotless : dot ∉ extension) :
    (stem ++ dot :: extension).splitExtension = (stem, some extension) := by
  have behind : ∀ byte ∈ extension.reverse, (byte != dot) = true := by
    intro byte member
    simpa using fun same : byte = dot => dotless (same ▸ List.mem_reverse.mp member)
  have reversed : (stem ++ dot :: extension).reverse = extension.reverse ++ dot :: stem.reverse := by
    simp
  have dropped : (stem ++ dot :: extension).reverse.dropWhile (· != dot) = dot :: stem.reverse := by
    rw [reversed, List.dropWhile_append_of_pos behind]
    simp
  have taken : (stem ++ dot :: extension).reverse.takeWhile (· != dot) = extension.reverse := by
    rw [reversed, List.takeWhile_append_of_pos behind]
    simp
  obtain ⟨last, before, cut⟩ := List.exists_cons_of_ne_nil (mt List.reverse_eq_nil_iff.mp filled)
  rw [splitExtension, dropped, taken, cut]
  simp [← cut]

theorem eq_append_of_splitExtension (cut : name.splitExtension = (stem, some extension)) :
    name = stem ++ dot :: extension ∧ stem ≠ [] := by
  have whole : name.reverse.takeWhile (· != dot) ++ name.reverse.dropWhile (· != dot) = name.reverse :=
    List.takeWhile_append_dropWhile
  unfold splitExtension at cut
  split at cut
  · cases cut
  · cases cut
  · next last before many dropped =>
      obtain ⟨rfl, same⟩ := Prod.mk.inj cut
      have isDot : last = dot := by
        have stops := List.head?_dropWhile_not (· != dot) name.reverse
        rw [dropped] at stops
        simpa using stops
      rw [dropped, isDot] at whole
      refine ⟨?_, fun empty => many (List.reverse_eq_nil_iff.mp empty)⟩
      calc name
          = (name.reverse.takeWhile (· != dot) ++ dot :: before).reverse := by
            rw [whole, List.reverse_reverse]
        _ = before.reverse ++ dot :: (name.reverse.takeWhile (· != dot)).reverse := by
            rw [List.reverse_append, List.reverse_cons, List.append_assoc, List.singleton_append]
        _ = before.reverse ++ dot :: extension := by rw [Option.some.inj same]

end FileName

namespace Command

open Settings (documentName)

variable {name : FileName} {version : String}

theorem ofText_json : FileName.ofText ".json" = FileName.dot :: FileName.ofText "json" := by
  decide

theorem isDocumentName_iff : isDocumentName name = true ↔
    ∃ stem, stem ≠ [] ∧ name = stem ++ FileName.ofText ".json" := by
  rw [isDocumentName, decide_eq_true_iff, ofText_json]
  constructor
  · intro cut
    obtain ⟨same, filled⟩ := FileName.eq_append_of_splitExtension (Prod.ext rfl cut)
    exact ⟨_, filled, same⟩
  · rintro ⟨stem, filled, rfl⟩
    rw [FileName.splitExtension_append filled (by decide)]

theorem splitExtension_documentName (filled : version ≠ "") :
    (FileName.ofText (documentName version)).splitExtension =
      (.ofText version, some (.ofText "json")) := by
  have stem : FileName.ofText version ≠ [] :=
    fun empty : FileName.ofText version = FileName.ofText "" =>
      filled (FileName.ofText_injective empty)
  rw [documentName, FileName.ofText_append, ofText_json,
    FileName.splitExtension_append stem (by decide)]

theorem versionOf?_documentName (filled : version ≠ "") :
    versionOf? (.ofText (documentName version)) = some version := by
  rw [versionOf?, splitExtension_documentName filled, FileName.text?_ofText]

-- The name of a document is made of its version, and there is only one that is made of it.
theorem eq_documentName (document : isDocumentName name = true)
    (named : versionOf? name = some version) : name = .ofText (documentName version) := by
  obtain ⟨stem, filled, rfl⟩ := isDocumentName_iff.mp document
  rw [versionOf?, ofText_json, FileName.splitExtension_append filled (by decide)] at named
  have stemText : stem = FileName.ofText version := FileName.text?_eq_some.mp named
  rw [documentName, FileName.ofText_append, stemText]

theorem isDocumentName_documentName :
    isDocumentName (.ofText (documentName version)) = true ↔ version ≠ "" := by
  constructor
  · rintro document rfl
    exact absurd document (by decide)
  · intro filled
    rw [isDocumentName, splitExtension_documentName filled]
    exact decide_eq_true rfl

end Command

end Toggles
