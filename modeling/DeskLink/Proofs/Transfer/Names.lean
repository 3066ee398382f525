import DeskLink.Transfer.Names

/-!
# `DeskLink.Proofs.Transfer.Names`: destination names are free and fit

* `sanitize_sanitize` and `validate_sanitize`: a sanitized name stays as it
  is, and is a valid one if it had no separator.
* `available_spec`: a destination name is free, at most 255 bytes, and keeps
  the extension; there is none only when all numbers are taken.
-/

set_option autoImplicit false

namespace DeskLink.Transfer

open Lib

variable {number : Nat} {filename : String}

/-! ### Sanitized names -/

theorem sanitize_cases (raw : String) :
    sanitizeFilename raw = "file" ∨
      ∃ name : List Char, sanitizeFilename raw = String.ofList name ∧ name ≠ [] ∧ name ≠ ['.'] ∧
        name ≠ ['.', '.'] ∧ byteLen name ≤ 255 ∧
        (∀ c ∈ name, c ∈ raw.toList ∧ isControl c = false ∧ isBidi c = false) := by
  unfold sanitizeFilename
  simp only
  split
  · exact Or.inl rfl
  · rename_i hplain
    simp only [not_or] at hplain
    refine Or.inr ⟨_, rfl, hplain.1, hplain.2.1, hplain.2.2, byteLen_cut _ _, ?_⟩
    intro c hc
    have hkept := (cut_beginning _ _).subset hc
    simpa using List.mem_filter.mp hkept

/-- A name with no such characters, that is not special and fits, stays. -/
theorem sanitize_of_plain {name : List Char} (hnil : name ≠ []) (hdot : name ≠ ['.'])
    (hdots : name ≠ ['.', '.']) (hlen : byteLen name ≤ 255)
    (hchars : ∀ c ∈ name, isControl c = false ∧ isBidi c = false) :
    sanitizeFilename (String.ofList name) = String.ofList name := by
  have hfilter : name.filter (fun c => !isControl c && !isBidi c) = name := by
    rw [List.filter_eq_self]
    intro c hc
    simp [hchars c hc]
  unfold sanitizeFilename
  simp only [String.toList_ofList, hfilter, cut_of_le hlen]
  simp [hnil, hdot, hdots]

theorem sanitize_sanitize (raw : String) :
    sanitizeFilename (sanitizeFilename raw) = sanitizeFilename raw := by
  rcases sanitize_cases raw with hfile | ⟨name, hname, hnil, hdot, hdots, hlen, hchars⟩
  · rw [hfile]
    decide
  · rw [hname]
    exact sanitize_of_plain hnil hdot hdots hlen (fun c hc => (hchars c hc).2)

theorem validate_ok_iff (value : String) :
    validateFilename value = .ok () ↔
      value ≠ "" ∧ value.utf8ByteSize ≤ 255 ∧ value ≠ "." ∧ value ≠ ".." ∧
        '/' ∉ value.toList ∧ '\\' ∉ value.toList ∧ '\x00' ∉ value.toList := by
  unfold validateFilename
  split
  · rename_i h
    simp only [reduceCtorEq, false_iff]
    rintro ⟨hnil, hlen, hdot, hdots, hslash, hback, hzero⟩
    simp [hnil, hdot, hdots, not_lt.mpr hlen] at h
    grind
  · rename_i h
    simp only [not_or, not_lt] at h
    simp only [true_iff]
    obtain ⟨hnil, hlen, hdot, hdots, hchars⟩ := h
    simp only [List.any_eq_true, not_exists, not_and, Bool.not_eq_true] at hchars
    refine ⟨hnil, hlen, hdot, hdots, ?_, ?_, ?_⟩
    · exact fun hmem => by simpa using hchars _ hmem
    · exact fun hmem => by simpa using hchars _ hmem
    · exact fun hmem => by simpa using hchars _ hmem

/-- A sanitized name without a separator is a valid one. -/
theorem validate_sanitize {raw : String} (hslash : '/' ∉ raw.toList) (hback : '\\' ∉ raw.toList) :
    validateFilename (sanitizeFilename raw) = .ok () := by
  rcases sanitize_cases raw with hfile | ⟨name, hname, hnil, hdot, hdots, hlen, hchars⟩
  · rw [hfile]
    decide
  · rw [hname, validate_ok_iff, String.toList_ofList, utf8ByteSize_eq, String.toList_ofList]
    have hne : ∀ l : List Char, name ≠ l → String.ofList name ≠ String.ofList l := by
      intro l hl heq
      exact hl (by simpa using congrArg String.toList heq)
    refine ⟨hne [] hnil, hlen, hne ['.'] hdot, hne ['.', '.'] hdots, ?_, ?_, ?_⟩
    · exact fun hmem => hslash (hchars _ hmem).1
    · exact fun hmem => hback (hchars _ hmem).1
    · exact fun hmem => by simpa [isControl] using (hchars _ hmem).2.1

/-! ### Destination names -/

theorem checkedChild_of_validate {name : String} (h : validateFilename name = .ok ()) :
    checkedChild name = .ok () := by
  obtain ⟨hnil, -, hdot, hdots, hslash, hback, hzero⟩ := (validate_ok_iff name).mp h
  have hany : ¬name.toList.any (fun c => c == '/' || c == '\\' || c == '\x00') = true := by
    simp only [List.any_eq_true, Bool.or_eq_true, beq_iff_eq, not_exists, not_and]
    intro c hc heq
    rcases heq with (rfl | rfl) | rfl
    · exact hslash hc
    · exact hback hc
    · exact hzero hc
  unfold checkedChild
  rw [if_neg (by simp only [hnil, hdot, hdots, hany]; simp)]

/-- The parts are the name's, and what stands after the number is short. -/
theorem numberedParts_spec (filename : List Char) :
    filename = (numberedParts filename).1 ++ (numberedParts filename).2 ∧
      byteLen (numberedParts filename).2 ≤ 33 ∧
      ∀ before extension, splitExtension filename = some (before, extension) →
        extension ≠ [] → byteLen extension ≤ 32 →
          (numberedParts filename).2 = '.' :: extension := by
  unfold numberedParts
  cases hsplit : splitExtension filename with
  | none => simp
  | some p =>
    obtain ⟨stem, extension⟩ := p
    have hname : filename = stem ++ '.' :: extension := by
      unfold splitExtension at hsplit
      exact (rsplitOnce_eq_some.mp (Option.filter_eq_some_iff.mp hsplit).1).1
    have hone : '.'.utf8Size = 1 := rfl
    by_cases hshort : extension ≠ [] ∧ byteLen extension ≤ 32
    · simp only [Option.filter_some, hshort, not_false_eq_true, ne_eq, and_self, decide_true, if_true]
      refine ⟨hname, ?_, ?_⟩
      · rw [byteLen_cons, hone]
        omega
      · intro before extension' heq _ _
        cases heq
        rfl
    · simp only [Option.filter_some, hshort, decide_false, Bool.false_eq_true, if_false]
      refine ⟨(List.append_nil _).symm, Nat.zero_le _, ?_⟩
      intro before extension' heq hnil hlen
      cases heq
      exact absurd ⟨hnil, hlen⟩ hshort

/-- What stands after the stem of a numbered name. -/
def numberSuffix (filename : List Char) (number : Nat) : List Char :=
  [' ', '('] ++ Nat.toDigits 10 number ++ [')'] ++ (numberedParts filename).2

theorem numbered_eq (filename : List Char) (number : Nat) :
    numbered filename number
      = cut (255 - byteLen (numberSuffix filename number)) (numberedParts filename).1
        ++ numberSuffix filename number := rfl

theorem byteLen_numberSuffix (filename : List Char) (h : number < 10000) :
    byteLen (numberSuffix filename number) ≤ 40 := by
  obtain ⟨-, hrest, -⟩ := numberedParts_spec filename
  have hdigits : (Nat.toDigits 10 number).length ≤ 4 :=
    (Nat.length_toDigits_le_iff (by decide) (by decide)).mpr h
  have hspace : ' '.utf8Size = 1 := rfl
  have hopen : '('.utf8Size = 1 := rfl
  have hclose : ')'.utf8Size = 1 := rfl
  unfold numberSuffix
  simp only [byteLen_append, byteLen_cons, byteLen_nil, byteLen_toDigits, hspace, hopen, hclose]
  omega

/-- A numbered name fits. -/
theorem byteLen_numbered (filename : List Char) (h : number < 10000) :
    byteLen (numbered filename number) ≤ 255 := by
  have hsuffix := byteLen_numberSuffix filename h
  have hcut := byteLen_cut (255 - byteLen (numberSuffix filename number)) (numberedParts filename).1
  rw [numbered_eq, byteLen_append]
  omega

theorem mem_numbered {filename : List Char} {c : Char} (h : c ∈ numbered filename number) :
    c ∈ filename ∨ c = ' ' ∨ c = '(' ∨ c = ')' ∨ c.isDigit = true := by
  obtain ⟨hname, -, -⟩ := numberedParts_spec filename
  rw [numbered_eq, List.mem_append] at h
  rcases h with hstem | hsuffix
  · left
    rw [hname]
    exact List.mem_append_left _ ((cut_beginning _ _).subset hstem)
  · simp only [numberSuffix, List.mem_append, List.mem_cons, List.not_mem_nil, or_false] at hsuffix
    rcases hsuffix with ((hopen | hdigit) | hclose) | hrest
    · tauto
    · right
      right
      right
      right
      exact Nat.isDigit_of_mem_toDigits (by decide) (by decide) hdigit
    · tauto
    · left
      rw [hname]
      exact List.mem_append_right _ hrest

/-- A numbered name of a valid name is one of the downloads directory. -/
theorem checkedChild_numbered (h : validateFilename filename = .ok ()) (number : Nat) :
    checkedChild (String.ofList (numbered filename.toList number)) = .ok () := by
  obtain ⟨-, -, -, -, hslash, hback, hzero⟩ := (validate_ok_iff filename).mp h
  have hopen : '(' ∈ numbered filename.toList number := by
    rw [numbered_eq]
    simp [numberSuffix]
  have hne : ∀ l : List Char, '(' ∉ l →
      String.ofList (numbered filename.toList number) ≠ String.ofList l := by
    intro l hl heq
    have hlist : numbered filename.toList number = l := by simpa using congrArg String.toList heq
    exact hl (hlist ▸ hopen)
  have hnone : ∀ c, c ∉ filename.toList → c ≠ ' ' → c ≠ '(' → c ≠ ')' → c.isDigit = false →
      c ∉ numbered filename.toList number := by
    intro c hc hspace hleft hright hdigit hmem
    rcases mem_numbered hmem with hin | heq | heq | heq | heq
    · exact hc hin
    · exact hspace heq
    · exact hleft heq
    · exact hright heq
    · rw [hdigit] at heq
      cases heq
  have hany : ¬(String.ofList (numbered filename.toList number)).toList.any
      (fun c => c == '/' || c == '\\' || c == '\x00') = true := by
    simp only [String.toList_ofList, List.any_eq_true, Bool.or_eq_true, beq_iff_eq, not_exists,
      not_and]
    intro c hc heq
    rcases heq with (rfl | rfl) | rfl
    · exact hnone _ hslash (by decide) (by decide) (by decide) (by decide) hc
    · exact hnone _ hback (by decide) (by decide) (by decide) (by decide) hc
    · exact hnone _ hzero (by decide) (by decide) (by decide) (by decide) hc
  have h0 : String.ofList (numbered filename.toList number) ≠ "" := hne [] (by decide)
  have h1 : String.ofList (numbered filename.toList number) ≠ "." := hne ['.'] (by decide)
  have h2 : String.ofList (numbered filename.toList number) ≠ ".." := hne ['.', '.'] (by decide)
  unfold checkedChild
  rw [if_neg (by simp only [h0, h1, h2, hany]; simp)]

/-- The first number whose name is free, if any is. -/
theorem firstFree_spec (taken : String → Bool) (h : validateFilename filename = .ok ())
    (numbers : List Nat) : (∃ number ∈ numbers,
        firstFree taken filename.toList numbers
          = .ok (String.ofList (numbered filename.toList number)) ∧
        taken (String.ofList (numbered filename.toList number)) = false) ∨
      ((∃ error, firstFree taken filename.toList numbers = .error error) ∧
        ∀ number ∈ numbers, taken (String.ofList (numbered filename.toList number)) = true) := by
  induction numbers with
  | nil => exact Or.inr ⟨⟨_, rfl⟩, fun _ hmem => absurd hmem List.not_mem_nil⟩
  | cons number numbers ih =>
    have hchild := checkedChild_numbered h number
    rw [firstFree]
    simp only [hchild]
    cases htaken : taken (String.ofList (numbered filename.toList number)) with
    | false => exact Or.inl ⟨number, List.mem_cons_self, rfl, htaken⟩
    | true =>
      rcases ih with ⟨other, hother, hfirst, hfree⟩ | ⟨herror, hall⟩
      · exact Or.inl ⟨other, List.mem_cons_of_mem _ hother, hfirst, hfree⟩
      · refine Or.inr ⟨herror, fun m hm => ?_⟩
        rcases List.mem_cons.mp hm with rfl | hm
        · exact htaken
        · exact hall m hm

/-- The destination name of a valid name: itself if it is free, else the
first free of its numbered names. Those are cut before the number, and keep
an extension of at most 32 bytes. -/
theorem available_spec (taken : String → Bool) (h : validateFilename filename = .ok ()) :
    (∃ name, availableDestinationName taken filename = .ok name ∧ taken name = false ∧
        name.utf8ByteSize ≤ 255 ∧
        (∀ stem extension, splitExtension filename.toList = some (stem, extension) →
          extension ≠ [] → byteLen extension ≤ 32 → '.' :: extension <:+ name.toList) ∧
        (name = filename ∨ ∃ number kept, kept <+: (numberedParts filename.toList).1 ∧
          name.toList = kept ++ numberSuffix filename.toList number)) ∨
      ((∃ error, availableDestinationName taken filename = .error error) ∧ taken filename = true ∧
        ∀ number, 2 ≤ number → number < 10000 →
          taken (String.ofList (numbered filename.toList number)) = true) := by
  have hchild := checkedChild_of_validate h
  obtain ⟨hparts, -, hkept⟩ := numberedParts_spec filename.toList
  unfold availableDestinationName
  simp only [hchild]
  cases htaken : taken filename with
  | false =>
    refine Or.inl ⟨filename, rfl, htaken, ((validate_ok_iff filename).mp h).2.1, ?_, Or.inl rfl⟩
    intro stem extension hsplit hnil hlen
    have hrest := hkept stem extension hsplit hnil hlen
    rw [hparts, hrest]
    exact List.suffix_append _ _
  | true =>
    have hrange : ∀ number, number ∈ List.range' 2 9998 ↔ 2 ≤ number ∧ number < 10000 := by
      intro number
      rw [List.mem_range'_1]
    rcases firstFree_spec taken h (List.range' 2 9998) with
      ⟨number, hnumber, hfirst, hfree⟩ | ⟨herror, hall⟩
    · left
      refine ⟨_, hfirst, hfree, ?_, ?_, Or.inr ⟨number,
        cut (255 - byteLen (numberSuffix filename.toList number)) (numberedParts filename.toList).1,
        cut_beginning _ _, ?_⟩⟩
      · rw [utf8ByteSize_eq, String.toList_ofList]
        exact byteLen_numbered _ ((hrange number).mp hnumber).2
      · intro stem extension hsplit hnil hlen
        have hrest := hkept stem extension hsplit hnil hlen
        rw [String.toList_ofList, numbered_eq, numberSuffix, hrest, ← List.append_assoc]
        exact List.suffix_append _ _
      · rw [String.toList_ofList]
        exact numbered_eq _ _
    · exact Or.inr ⟨herror, rfl, fun number hlo hhi => hall number ((hrange number).mpr ⟨hlo, hhi⟩)⟩

end DeskLink.Transfer
