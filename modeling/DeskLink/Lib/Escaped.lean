import Mathlib.Tactic

/-!
# `DeskLink.Lib.Escaped`: texts with backslash escapes

A backslash stands for the character after it. `tokens` reads a text as characters that
stand for themselves and characters that were escaped. A backslash at the end escapes
nothing and is dropped.

* `tokens_write`: reading undoes writing.
* `tokensFrom_append`: a text read before more of it comes.
* `cutAt` and `ended`: the parts between separators, and those that one ends, an escaped one
  left alone.
-/

set_option autoImplicit false

namespace DeskLink.Lib

inductive Token where
  | plain (c : Char)
  | escaped (c : Char)
deriving DecidableEq, Repr

/-- The character that a token is about. -/
def Token.char : Token → Char
  | .plain c => c
  | .escaped c => c

/-- A text as its characters and escapes. The flag says that a backslash came before it. -/
def tokensFrom : Bool → List Char → List Token
  | _, [] => []
  | true, c :: text => .escaped c :: tokensFrom false text
  | false, c :: text =>
    if c = '\\' then tokensFrom true text else .plain c :: tokensFrom false text

def tokens (text : List Char) : List Token := tokensFrom false text

/-- The token as it stands in a text. -/
def Token.text : Token → List Char
  | .plain c => [c]
  | .escaped c => ['\\', c]

def write (ts : List Token) : List Char := ts.flatMap Token.text

variable {ts rest : List Token} {text : List Char} {t : Token}

@[simp] theorem tokens_nil : tokens [] = [] := rfl

theorem tokensFrom_backslash (text : List Char) :
    tokensFrom false ('\\' :: text) = tokensFrom true text := rfl

theorem tokensFrom_plain {c : Char} (h : c ≠ '\\') (text : List Char) :
    tokensFrom false (c :: text) = .plain c :: tokensFrom false text := if_neg h

@[simp] theorem write_nil : write [] = [] := rfl

theorem write_cons (t : Token) (ts : List Token) : write (t :: ts) = t.text ++ write ts := rfl

theorem write_append (ts rest : List Token) : write (ts ++ rest) = write ts ++ write rest :=
  List.flatMap_append

/-- A written token is read back, with any text behind it. -/
theorem tokens_text (h : t ≠ .plain '\\') (text : List Char) :
    tokens (t.text ++ text) = t :: tokens text := by
  cases t with
  | plain c =>
    have hc : c ≠ '\\' := fun heq => h (congrArg Token.plain heq)
    exact tokensFrom_plain hc text
  | escaped c => rfl

/-- Reading undoes writing, with any text behind it. -/
theorem tokens_write_append (h : Token.plain '\\' ∉ ts) (text : List Char) :
    tokens (write ts ++ text) = ts ++ tokens text := by
  induction ts with
  | nil => rfl
  | cons t ts ih =>
    rw [List.mem_cons, not_or] at h
    rw [write_cons, List.append_assoc, tokens_text (Ne.symm h.1), ih h.2, List.cons_append]

theorem tokens_write (h : Token.plain '\\' ∉ ts) : tokens (write ts) = ts := by
  have hread := tokens_write_append h []
  rwa [List.append_nil, tokens_nil, List.append_nil] at hread

/-- A backslash never stands for itself. -/
theorem plain_backslash_not_mem (flag : Bool) (text : List Char) :
    Token.plain '\\' ∉ tokensFrom flag text := by
  induction text generalizing flag with
  | nil => cases flag <;> exact List.not_mem_nil
  | cons c text ih =>
    cases flag with
    | true =>
      show _ ∉ Token.escaped c :: tokensFrom false text
      rw [List.mem_cons, not_or]
      exact ⟨by simp, ih false⟩
    | false =>
      by_cases hc : c = '\\'
      · rw [hc, tokensFrom_backslash]
        exact ih true
      · rw [tokensFrom_plain hc, List.mem_cons, not_or]
        exact ⟨fun heq => hc (Token.plain.inj heq).symm, ih false⟩

/-- What is read is in the text. -/
theorem char_mem_of_mem_tokensFrom {flag : Bool} (h : t ∈ tokensFrom flag text) :
    t.char ∈ text := by
  induction text generalizing flag with
  | nil => cases flag <;> cases h
  | cons c text ih =>
    cases flag with
    | true =>
      obtain rfl | h := List.mem_cons.mp h
      · exact List.mem_cons_self
      · exact List.mem_cons_of_mem _ (ih h)
    | false =>
      by_cases hc : c = '\\'
      · rw [hc, tokensFrom_backslash] at h
        exact List.mem_cons_of_mem _ (ih h)
      · rw [tokensFrom_plain hc] at h
        obtain rfl | h := List.mem_cons.mp h
        · exact List.mem_cons_self
        · exact List.mem_cons_of_mem _ (ih h)

/-- More of a text is read behind what is there. -/
theorem tokensFrom_append (flag : Bool) (text more : List Char) :
    ∃ after, tokensFrom flag (text ++ more) = tokensFrom flag text ++ tokensFrom after more := by
  induction text generalizing flag with
  | nil => exact ⟨flag, by cases flag <;> rfl⟩
  | cons c text ih =>
    cases flag with
    | true =>
      obtain ⟨after, heq⟩ := ih false
      exact ⟨after, congrArg (Token.escaped c :: ·) heq⟩
    | false =>
      by_cases hc : c = '\\'
      · obtain ⟨after, heq⟩ := ih true
        refine ⟨after, ?_⟩
        rw [hc, List.cons_append, tokensFrom_backslash, tokensFrom_backslash, heq]
      · obtain ⟨after, heq⟩ := ih false
        refine ⟨after, ?_⟩
        rw [List.cons_append, tokensFrom_plain hc, tokensFrom_plain hc, heq, List.cons_append]

/-! ### Parts -/

/-- A list cut at each `mark`, `part` being what was read of the first part. -/
def cutFrom (mark : Token) (part : List Token) : List Token → List (List Token)
  | [] => [part]
  | t :: ts => if t = mark then part :: cutFrom mark [] ts else cutFrom mark (part ++ [t]) ts

def cutAt (mark : Token) (ts : List Token) : List (List Token) := cutFrom mark [] ts

/-- The parts of a list that `mark` ends, `part` being what was read of the first. -/
def endedFrom (mark : Token) (part : List Token) : List Token → List (List Token)
  | [] => []
  | t :: ts => if t = mark then part :: endedFrom mark [] ts else endedFrom mark (part ++ [t]) ts

def ended (mark : Token) (ts : List Token) : List (List Token) := endedFrom mark [] ts

variable {mark : Token} {part : List Token} {parts : List (List Token)}

theorem cutFrom_part (h : mark ∉ ts) :
    cutFrom mark part (ts ++ mark :: rest) = (part ++ ts) :: cutFrom mark [] rest := by
  induction ts generalizing part with
  | nil => rw [List.nil_append, cutFrom, if_pos rfl, List.append_nil]
  | cons t ts ih =>
    rw [List.mem_cons, not_or] at h
    rw [List.cons_append, cutFrom, if_neg (Ne.symm h.1), ih h.2, List.append_assoc,
      List.singleton_append]

theorem cutFrom_last (h : mark ∉ ts) : cutFrom mark part ts = [part ++ ts] := by
  induction ts generalizing part with
  | nil => rw [cutFrom, List.append_nil]
  | cons t ts ih =>
    rw [List.mem_cons, not_or] at h
    rw [cutFrom, if_neg (Ne.symm h.1), ih h.2, List.append_assoc, List.singleton_append]

/-- The parts hold nothing of their own. -/
theorem mem_of_mem_cutFrom (hpart : rest ∈ cutFrom mark part ts) (ht : t ∈ rest) :
    t ∈ part ∨ t ∈ ts := by
  induction ts generalizing part with
  | nil =>
    rw [cutFrom, List.mem_singleton] at hpart
    exact .inl (hpart ▸ ht)
  | cons first ts ih =>
    rw [cutFrom] at hpart
    split at hpart
    · obtain rfl | hpart := List.mem_cons.mp hpart
      · exact .inl ht
      · obtain hnil | hts := ih hpart
        · cases hnil
        · exact .inr (List.mem_cons_of_mem _ hts)
    · obtain hmem | hts := ih hpart
      · obtain hmem | hfirst := List.mem_append.mp hmem
        · exact .inl hmem
        · exact .inr (List.mem_singleton.mp hfirst ▸ List.mem_cons_self)
      · exact .inr (List.mem_cons_of_mem _ hts)

theorem mem_of_mem_cutAt (hpart : part ∈ cutAt mark ts) (ht : t ∈ part) : t ∈ ts :=
  (mem_of_mem_cutFrom hpart ht).resolve_left List.not_mem_nil

/-- What joined parts hold is of a part or a mark. -/
theorem mem_intercalate (h : t ∈ [mark].intercalate parts) :
    (∃ part ∈ parts, t ∈ part) ∨ t = mark := by
  induction parts with
  | nil => cases h
  | cons part parts ih =>
    cases parts with
    | nil =>
      rw [List.intercalate_singleton] at h
      exact .inl ⟨part, List.mem_cons_self, h⟩
    | cons next parts =>
      rw [List.intercalate_cons_cons, List.mem_append, List.mem_append, List.mem_singleton] at h
      obtain (hpart | hmark) | hrest := h
      · exact .inl ⟨part, List.mem_cons_self, hpart⟩
      · exact .inr hmark
      · obtain ⟨p, hp, ht⟩ | hmark := ih hrest
        · exact .inl ⟨p, List.mem_cons_of_mem _ hp, ht⟩
        · exact .inr hmark

/-- Parts that the mark joins are read back. -/
theorem cutAt_intercalate (hsome : parts ≠ []) (h : ∀ part ∈ parts, mark ∉ part) :
    cutAt mark ([mark].intercalate parts) = parts := by
  unfold cutAt
  induction parts with
  | nil => exact absurd rfl hsome
  | cons part parts ih =>
    cases parts with
    | nil =>
      rw [List.intercalate_singleton, cutFrom_last (h part List.mem_cons_self), List.nil_append]
    | cons next parts =>
      have hrest := ih (List.cons_ne_nil _ _) (fun p hp => h p (List.mem_cons_of_mem _ hp))
      rw [List.intercalate_cons_cons, List.append_assoc, List.singleton_append,
        cutFrom_part (h part List.mem_cons_self), hrest, List.nil_append]

theorem endedFrom_append_of_not_mem (h : mark ∉ rest) :
    endedFrom mark part (ts ++ rest) = endedFrom mark part ts := by
  induction ts generalizing part with
  | nil =>
    rw [List.nil_append]
    induction rest generalizing part with
    | nil => rfl
    | cons t rest ih =>
      rw [List.mem_cons, not_or] at h
      exact (if_neg (Ne.symm h.1)).trans (ih h.2)
  | cons t ts ih =>
    rw [List.cons_append, endedFrom, endedFrom, ih, ih]

/-- A part without the mark, and its end. -/
theorem endedFrom_part (h : mark ∉ ts) :
    endedFrom mark part (ts ++ mark :: rest) = (part ++ ts) :: endedFrom mark [] rest := by
  induction ts generalizing part with
  | nil => rw [List.nil_append, endedFrom, if_pos rfl, List.append_nil]
  | cons t ts ih =>
    rw [List.mem_cons, not_or] at h
    rw [List.cons_append, endedFrom, if_neg (Ne.symm h.1), ih h.2, List.append_assoc,
      List.singleton_append]

/-- Parts that each have their end are read back. -/
theorem ended_flatMap (h : ∀ part ∈ parts, mark ∉ part) :
    ended mark (parts.flatMap (fun part => part ++ [mark])) = parts := by
  unfold ended
  induction parts with
  | nil => rfl
  | cons part parts ih =>
    rw [List.flatMap_cons, List.append_assoc, List.singleton_append,
      endedFrom_part (h part List.mem_cons_self), List.nil_append,
      ih (fun p hp => h p (List.mem_cons_of_mem _ hp))]

end DeskLink.Lib
