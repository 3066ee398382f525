import DeskLink.Folders.Names
import DeskLink.Proofs.Transfer.Names

/-!
# `DeskLink.Proofs.Folders.Names`: new names beside others

* `uniqueAmong_cases`: a new name in a folder is free, also when case is not
  told, unless all its numbers are taken.
* `names_fresh`: the names of received files and of added ones together.
-/

set_option autoImplicit false

namespace DeskLink.Folders

open Lib
open Transfer

variable (lower : Char → List Char)

/-- The parts are the name's, and a short extension is the second one. -/
theorem splitName_spec (name : List Char) :
    name = (splitName name).1 ++ (splitName name).2 ∧
      ∀ stem extension, rsplitOnce '.' name = some (stem, extension) → stem ≠ [] →
        byteLen extension ≤ 16 → (splitName name).2 = '.' :: extension := by
  unfold splitName
  cases hsplit : rsplitOnce '.' name with
  | none => simp
  | some p =>
    obtain ⟨stem, extension⟩ := p
    have hname : name = stem ++ '.' :: extension := (rsplitOnce_eq_some.mp hsplit).1
    by_cases hshort : stem ≠ [] ∧ byteLen extension ≤ 16
    · simp only [Option.filter_some, hshort, ne_eq, not_false_eq_true, and_self, decide_true,
        if_true]
      refine ⟨hname, ?_⟩
      intro stem' extension' heq _ _
      cases heq
      rfl
    · simp only [Option.filter_some, hshort, decide_false, Bool.false_eq_true, if_false]
      refine ⟨(List.append_nil _).symm, ?_⟩
      intro stem' extension' heq hnil hlen
      cases heq
      exact absurd ⟨hnil, hlen⟩ hshort

theorem isFree_iff (there : String → Bool) (entries taken : List String) (name : String) :
    isFree lower there entries taken name = true ↔
      there name = false ∧ name ∉ taken ∧ foldName lower name ∉ entries.map (foldName lower) ∧
        foldName lower name ∉ taken.map (foldName lower) := by
  simp only [isFree, Bool.and_eq_true, Bool.not_eq_true', List.contains_eq_mem,
    decide_eq_false_iff_not, and_assoc]

/-- The new name is the name itself, one of its numbered names or the random
one; the last only when all others are taken. -/
theorem uniqueAmong_cases (there : String → Bool) (entries taken : List String)
    (random name : String) :
    isFree lower there entries taken (uniqueAmong lower there entries taken random name) = true ∧
        (uniqueAmong lower there entries taken random name = name ∨
          ∃ number, uniqueAmong lower there entries taken random name = numberedName name number) ∨
      (isFree lower there entries taken name = false ∧
        ∀ number, 2 ≤ number → number < 10000 →
          isFree lower there entries taken (numberedName name number) = false) ∧
        uniqueAmong lower there entries taken random name = randomName random name := by
  unfold uniqueAmong
  split
  · rename_i hname
    exact Or.inl ⟨hname, Or.inl rfl⟩
  · rename_i hname
    cases hfind : ((List.range' 2 9998).map (numberedName name)).find?
      (isFree lower there entries taken) with
    | some found =>
      obtain ⟨number, -, rfl⟩ := List.mem_map.mp (List.mem_of_find?_eq_some hfind)
      exact Or.inl ⟨List.find?_some hfind, Or.inr ⟨number, rfl⟩⟩
    | none =>
      rw [List.find?_eq_none] at hfind
      refine Or.inr ⟨⟨by simpa using hname, ?_⟩, rfl⟩
      intro number hlo hhi
      have hrange : number ∈ List.range' 2 9998 := List.mem_range'_1.mpr ⟨hlo, by omega⟩
      simpa using hfind _ (List.mem_map_of_mem hrange)

/-- A new name ends as the name does. -/
theorem uniqueAmong_ends (there : String → Bool) (entries taken : List String)
    (random name : String) :
    (splitName name.toList).2 <:+ (uniqueAmong lower there entries taken random name).toList := by
  rcases uniqueAmong_cases lower there entries taken random name with
    ⟨-, heq | ⟨number, heq⟩⟩ | ⟨-, heq⟩
  · rw [heq]
    exact ⟨(splitName name.toList).1, (splitName_spec name.toList).1.symm⟩
  · rw [heq, numberedName, String.toList_ofList]
    exact List.suffix_append _ _
  · rw [heq, randomName, String.toList_ofList]
    exact List.suffix_append _ _

/-! ### Names of received files and of added ones -/

/-- A received file's destination name is free, fits, is cut between
characters and keeps a short extension, and there is none only when all its
numbers are taken. The same goes for an added name, which differs from the
others also when case is not told. A sanitized name is a valid one and stays
as it is. -/
theorem names_fresh :
    (∀ (taken : String → Bool) (filename : String), validateFilename filename = .ok () →
      (∃ name, availableDestinationName taken filename = .ok name ∧ taken name = false ∧
          name.utf8ByteSize ≤ 255 ∧
          (∀ stem extension, splitExtension filename.toList = some (stem, extension) →
            extension ≠ [] → byteLen extension ≤ 32 → '.' :: extension <:+ name.toList) ∧
          (name = filename ∨ ∃ number kept, kept <+: (numberedParts filename.toList).1 ∧
            name.toList = kept ++ numberSuffix filename.toList number)) ∨
        ((∃ error, availableDestinationName taken filename = .error error) ∧
          taken filename = true ∧ ∀ number, 2 ≤ number → number < 10000 →
            taken (String.ofList (numbered filename.toList number)) = true)) ∧
    (∀ (there : String → Bool) (entries taken : List String) (random name : String),
      (there (uniqueAmong lower there entries taken random name) = false ∧
          uniqueAmong lower there entries taken random name ∉ taken ∧
          foldName lower (uniqueAmong lower there entries taken random name)
            ∉ entries.map (foldName lower) ∧
          foldName lower (uniqueAmong lower there entries taken random name)
            ∉ taken.map (foldName lower) ∨
        (isFree lower there entries taken name = false ∧ ∀ number, 2 ≤ number → number < 10000 →
            isFree lower there entries taken (numberedName name number) = false) ∧
          uniqueAmong lower there entries taken random name = randomName random name) ∧
        ∀ stem extension, rsplitOnce '.' name.toList = some (stem, extension) → stem ≠ [] →
          byteLen extension ≤ 16 →
          '.' :: extension <:+ (uniqueAmong lower there entries taken random name).toList) ∧
    (∀ raw : String, sanitizeFilename (sanitizeFilename raw) = sanitizeFilename raw) ∧
    ∀ raw : String, '/' ∉ raw.toList → '\\' ∉ raw.toList →
      validateFilename (sanitizeFilename raw) = .ok () := by
  refine ⟨?_, ?_, sanitize_sanitize, ?_⟩
  · intro taken filename hvalid
    exact available_spec taken hvalid
  · intro there entries taken random name
    refine ⟨?_, ?_⟩
    · rcases uniqueAmong_cases lower there entries taken random name with ⟨hfree, -⟩ | hall
      · exact Or.inl ((isFree_iff lower there entries taken _).mp hfree)
      · exact Or.inr hall
    · intro stem extension hsplit hnil hlen
      rw [← (splitName_spec name.toList).2 stem extension hsplit hnil hlen]
      exact uniqueAmong_ends lower there entries taken random name
  · intro raw hslash hback
    exact validate_sanitize hslash hback

/-- A taken name with an extension, and a received one with an override mark
in it. -/
theorem names_fresh_photo :
    (∃ name, availableDestinationName (fun name => name == "photo.jpg") "photo.jpg" = .ok name ∧
        name ≠ "photo.jpg") ∧
      validateFilename (sanitizeFilename "photo\u202egpj.exe") = .ok () := by
  have hvalid : validateFilename "photo.jpg" = .ok () := by decide
  refine ⟨?_, (names_fresh (fun c => [c])).2.2.2 _ (by decide) (by decide)⟩
  rcases (names_fresh (fun c => [c])).1 (fun name => name == "photo.jpg") "photo.jpg" hvalid with
    ⟨name, hname, hfree, -⟩ | ⟨-, -, hall⟩
  · exact ⟨name, hname, by simpa using hfree⟩
  · exact absurd (hall 2 (by decide) (by decide)) (by decide)

/-- An extension of more than 32 bytes is numbered as part of the name, so
the destination name does not end in it. -/
theorem long_extension_numbered :
    ∃ (taken : String → Bool) (filename name : String) (stem extension : List Char),
      validateFilename filename = .ok () ∧
      splitExtension filename.toList = some (stem, extension) ∧ extension ≠ [] ∧
      availableDestinationName taken filename = .ok name ∧ taken name = false ∧
      ¬('.' :: extension <:+ name.toList) := by
  refine ⟨fun name => name == "a.extension-longer-than-thirty-two-bytes",
    "a.extension-longer-than-thirty-two-bytes", "a.extension-longer-than-thirty-two-bytes (2)",
    ['a'], "extension-longer-than-thirty-two-bytes".toList, ?_⟩
  decide

end DeskLink.Folders
