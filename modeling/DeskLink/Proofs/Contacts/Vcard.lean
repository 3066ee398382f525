import DeskLink.Contacts.Vcard
import DeskLink.Lib.Escaped

/-!
# `DeskLink.Proofs.Contacts.Vcard`: reading a vCard undoes writing it

`Folded` is a line with the places where it is folded, and `written` a card of such lines.
`unfold_written` says that `unfold` gives the lines back, where no carriage return of a
line stands right before a bare line feed or the end (`Safe`): there it is read as part
of the line break.

`unescape_escaped` and `splitUnescaped_joined` are the two escape readers, and
`reading_undoes_writing` is the three together. `carriage_return_lost` is why it needs `Safe`.
-/

set_option autoImplicit false

namespace DeskLink.Contacts

open Lib (Token tokensFrom cutFrom cutAt)

/-! ### Folds -/

def lineBreak (crlf : Bool) : List Char := if crlf then ['\r', '\n'] else ['\n']

/-- A line break and one space or tab. -/
structure Fold where
  crlf : Bool
  tab : Bool

def Fold.text (fold : Fold) : List Char := lineBreak fold.crlf ++ [if fold.tab then '\t' else ' ']

/-- A line that is not empty, with a fold or none before each later character. -/
structure Folded where
  first : Char
  rest : List (Option Fold × Char)

/-- The characters behind a place. -/
def restLine (rest : List (Option Fold × Char)) : List Char := rest.map Prod.snd

def restText (rest : List (Option Fold × Char)) : List Char :=
  rest.flatMap (fun place => (place.1.map Fold.text).getD [] ++ [place.2])

def Folded.line (f : Folded) : List Char := f.first :: restLine f.rest
def Folded.text (f : Folded) : List Char := f.first :: restText f.rest

/-- A card: lines, each but the first after a line break. -/
def written (first : Folded) : List (Bool × Folded) → List Char
  | [] => first.text
  | (crlf, next) :: more => first.text ++ (lineBreak crlf ++ written next more)

/-- What a carriage return `c` needs: no bare line feed after it, nor the end. -/
def SafeFrom (next : Option Bool) : Char → List (Option Fold × Char) → Prop
  | c, [] => c = '\r' → next = some true
  | c, (fold, d) :: rest =>
    (c = '\r' → ∀ f, fold = some f → f.crlf = true) ∧ SafeFrom next d rest

/-- The card keeps its carriage returns. -/
def Safe (first : Folded) : List (Bool × Folded) → Prop
  | [] => SafeFrom none first.first first.rest
  | (crlf, next) :: more => SafeFrom (some crlf) first.first first.rest ∧ Safe next more

/-- A logical line: no line feed in it, and no white space before it. -/
def Logical (f : Folded) : Prop := '\n' ∉ f.line ∧ f.first ≠ ' ' ∧ f.first ≠ '\t'

/-! ### Unfolding -/

variable {lines done : List (List Char)} {line whole : List Char}
variable {c d separator : Char} {first : Folded}

/-- The lines so far and the one at work come to `done` and `whole`, and go on so. -/
def Reading (lines : List (List Char)) (line : List Char) (done : List (List Char))
    (whole : List Char) : Prop :=
  ∀ more, unfoldStep lines (line ++ more) = done ++ [whole ++ more]

theorem Reading.start {c : Char} (hspace : c ≠ ' ') (htab : c ≠ '\t') (done : List (List Char)) :
    Reading done [c] done [c] := by
  intro more
  show unfoldStep done (c :: more) = done ++ [c :: more]
  unfold unfoldStep
  cases done.getLast? with
  | none => rfl
  | some last => exact if_neg (not_or.mpr ⟨hspace, htab⟩)

theorem Reading.more (h : Reading lines line done whole) (c : Char) :
    Reading lines (line ++ [c]) done (whole ++ [c]) := by
  intro more
  rw [List.append_assoc, List.append_assoc]
  exact h ([c] ++ more)

theorem Reading.fold (h : Reading lines line done whole) (tab : Bool) :
    Reading (unfoldStep lines line) [if tab then '\t' else ' '] done whole := by
  intro more
  have hstep : unfoldStep lines line = done ++ [whole] := by
    have := h []
    rwa [List.append_nil, List.append_nil] at this
  have hwhite : (if tab then '\t' else ' ') = ' ' ∨ (if tab then '\t' else ' ') = '\t' := by
    cases tab
    · exact .inl rfl
    · exact .inr rfl
  rw [hstep, List.singleton_append]
  unfold unfoldStep
  simp only [List.getLast?_concat, if_pos hwhite, List.dropLast_concat]

/-- The lines of the rest of a card, behind those so far. -/
def unfoldFrom (lines : List (List Char)) (line text : List Char) : List (List Char) :=
  ((splitLines line text).map stripReturn).foldl unfoldStep lines

theorem unfoldFrom_char (h : c ≠ '\n') (text : List Char) :
    unfoldFrom lines line (c :: text) = unfoldFrom lines (line ++ [c]) text := by
  rw [unfoldFrom, splitLines, if_neg h]
  rfl

/-- A line break ends the line. Of a carriage return it takes its own only. -/
theorem unfoldFrom_break {crlf : Bool} (hsafe : c = '\r' → crlf = true) (text : List Char) :
    unfoldFrom lines (line ++ [c]) (lineBreak crlf ++ text)
      = unfoldFrom (unfoldStep lines (line ++ [c])) [] text := by
  cases crlf with
  | true =>
    have hstrip : stripReturn (line ++ [c] ++ ['\r']) = line ++ [c] := by
      rw [stripReturn, List.getLast?_concat, if_pos rfl, List.dropLast_concat]
    show unfoldFrom lines (line ++ [c]) ('\r' :: '\n' :: text) = _
    rw [unfoldFrom_char (by decide), unfoldFrom, splitLines, if_pos rfl, List.map_cons,
      List.foldl_cons, hstrip]
    rfl
  | false =>
    have hc : c ≠ '\r' := fun heq => Bool.false_ne_true (hsafe heq)
    have hstrip : stripReturn (line ++ [c]) = line ++ [c] := by
      rw [stripReturn, List.getLast?_concat, if_neg]
      exact fun heq => hc (Option.some.inj heq)
    show unfoldFrom lines (line ++ [c]) ('\n' :: text) = _
    rw [unfoldFrom, splitLines, if_pos rfl, List.map_cons, List.foldl_cons, hstrip]
    rfl

/-- The rest of a line is read, and what comes behind it. -/
theorem unfoldFrom_rest {next : Option Bool} {rest : List (Option Fold × Char)}
    (hreading : Reading lines (line ++ [c]) done whole) (hsafe : SafeFrom next c rest)
    (hfeed : '\n' ∉ restLine rest) : (next = none → unfoldFrom lines (line ++ [c]) (restText rest)
        = done ++ [whole ++ restLine rest]) ∧
      ∀ crlf text, next = some crlf →
        unfoldFrom lines (line ++ [c]) (restText rest ++ (lineBreak crlf ++ text))
          = unfoldFrom (done ++ [whole ++ restLine rest]) [] text := by
  induction rest generalizing lines line c whole with
  | nil =>
    have hstep : unfoldStep lines (line ++ [c]) = done ++ [whole] := by
      have := hreading []
      rwa [List.append_nil, List.append_nil] at this
    constructor
    · rintro rfl
      have hc : c ≠ '\r' := fun heq => by cases hsafe heq
      have hstrip : stripReturn (line ++ [c]) = line ++ [c] := by
        rw [stripReturn, List.getLast?_concat, if_neg]
        exact fun heq => hc (Option.some.inj heq)
      show unfoldStep lines (stripReturn (line ++ [c])) = _
      rw [hstrip, hstep]
      simp [restLine]
    · rintro crlf text rfl
      show unfoldFrom lines (line ++ [c]) (lineBreak crlf ++ text) = _
      rw [unfoldFrom_break (fun heq => Option.some.inj (hsafe heq)), hstep]
      simp [restLine]
  | cons place rest ih =>
    obtain ⟨fold, d⟩ := place
    obtain ⟨hc, hsafe⟩ := hsafe
    rw [restLine, List.map_cons, List.mem_cons, not_or] at hfeed
    have hd : d ≠ '\n' := Ne.symm hfeed.1
    have hline : restLine ((fold, d) :: rest) = d :: restLine rest := rfl
    cases fold with
    | none =>
      obtain ⟨hend, hbreak⟩ := ih (hreading.more d) hsafe hfeed.2
      have htext : restText ((none, d) :: rest) = d :: restText rest := rfl
      rw [htext, hline]
      refine ⟨fun hnone => ?_, fun crlf text hsome => ?_⟩
      · rw [unfoldFrom_char hd, hend hnone, List.append_assoc, List.singleton_append]
      · rw [List.cons_append, unfoldFrom_char hd, hbreak crlf text hsome, List.append_assoc,
          List.singleton_append]
    | some f =>
      -- The line breaks off and goes on behind the white space.
      have hwhite : (if f.tab then '\t' else ' ') ≠ '\n' := by
        cases f.tab <;> decide
      have hnext : ∀ text, unfoldFrom lines (line ++ [c]) (f.text ++ (d :: text))
          = unfoldFrom (unfoldStep lines (line ++ [c])) ([if f.tab then '\t' else ' '] ++ [d])
            text := by
        intro text
        rw [Fold.text, List.append_assoc, unfoldFrom_break (fun heq => hc heq f rfl),
          List.singleton_append, unfoldFrom_char hwhite, unfoldFrom_char hd, List.nil_append]
      obtain ⟨hend, hbreak⟩ := ih ((hreading.fold f.tab).more d) hsafe hfeed.2
      have htext : restText ((some f, d) :: rest) = f.text ++ (d :: restText rest) := by
        show (f.text ++ [d]) ++ restText rest = _
        rw [List.append_assoc, List.singleton_append]
      rw [htext, hline]
      refine ⟨fun hnone => ?_, fun crlf text hsome => ?_⟩
      · rw [hnext, hend hnone, List.append_assoc, List.singleton_append]
      · rw [List.append_assoc, List.cons_append, hnext, hbreak crlf text hsome, List.append_assoc,
          List.singleton_append]

theorem unfoldFrom_written {more : List (Bool × Folded)}
    (hlogical : ∀ f ∈ first :: more.map Prod.snd, Logical f) (hsafe : Safe first more) :
    unfoldFrom done [] (written first more)
      = done ++ (first :: more.map Prod.snd).map Folded.line := by
  induction more generalizing first done with
  | nil =>
    obtain ⟨hfeed, hspace, htab⟩ := hlogical first List.mem_cons_self
    rw [Folded.line, List.mem_cons, not_or] at hfeed
    have hstart : Reading done ([] ++ [first.first]) done [first.first] :=
      Reading.start hspace htab done
    have hread := (unfoldFrom_rest hstart hsafe hfeed.2).1 rfl
    show unfoldFrom done [] (first.first :: restText first.rest) = _
    rw [unfoldFrom_char (Ne.symm hfeed.1), hread]
    rfl
  | cons next more ih =>
    obtain ⟨crlf, next⟩ := next
    obtain ⟨hfeed, hspace, htab⟩ := hlogical first List.mem_cons_self
    rw [Folded.line, List.mem_cons, not_or] at hfeed
    have hstart : Reading done ([] ++ [first.first]) done [first.first] :=
      Reading.start hspace htab done
    have hread := (unfoldFrom_rest hstart hsafe.1 hfeed.2).2 crlf (written next more) rfl
    show unfoldFrom done [] (first.first :: (restText first.rest
      ++ (lineBreak crlf ++ written next more))) = _
    rw [unfoldFrom_char (Ne.symm hfeed.1), hread,
      ih (fun f hf => hlogical f (List.mem_cons_of_mem _ hf)) hsafe.2, List.append_assoc]
    rfl

/-- `unfold` gives the lines of a card back. -/
theorem unfold_written {more : List (Bool × Folded)}
    (hlogical : ∀ f ∈ first :: more.map Prod.snd, Logical f) (hsafe : Safe first more) :
    unfold (written first more) = (first :: more.map Prod.snd).map Folded.line :=
  unfoldFrom_written hlogical hsafe

/-! ### Escapes -/

/-- A character as it is written. -/
def vcardEscape (c : Char) : Token :=
  if c = '\n' then .escaped 'n'
  else if c ∈ ['\\', ';', ','] then .escaped c
  else .plain c

def escaped (text : List Char) : List Char := Lib.write (text.map vcardEscape)

/-- What a token stands for. -/
def decoded : Token → Char
  | .plain c => c
  | .escaped c => if c = 'n' ∨ c = 'N' then '\n' else c

theorem unescapeFrom_eq (flag : Bool) (text : List Char) :
    unescapeFrom flag text = (tokensFrom flag text).map decoded := by
  induction text generalizing flag with
  | nil => cases flag <;> rfl
  | cons c text ih =>
    cases flag with
    | true => exact congrArg (_ :: ·) (ih false)
    | false =>
      by_cases hc : c = '\\'
      · rw [hc, Lib.tokensFrom_backslash, ← ih true]
        rfl
      · rw [Lib.tokensFrom_plain hc, List.map_cons, ← ih false, unescapeFrom, if_neg hc]
        rfl

theorem decoded_vcardEscape (c : Char) : decoded (vcardEscape c) = c := by
  unfold vcardEscape
  split
  · rename_i hc
    exact hc.symm
  · split
    · rename_i hc
      have hn : ¬(c = 'n' ∨ c = 'N') := by
        rintro (rfl | rfl) <;> exact absurd hc (by decide)
      exact if_neg hn
    · rfl

theorem vcardEscape_ne (hd : d ∈ ['\\', ';', ',']) : vcardEscape c ≠ .plain d := by
  unfold vcardEscape
  split
  · simp
  · split
    · simp
    · rename_i hc
      exact fun heq => hc (Token.plain.inj heq ▸ hd)

theorem plain_not_mem_escape (hd : d ∈ ['\\', ';', ',']) (text : List Char) :
    Token.plain d ∉ text.map vcardEscape := by
  rw [List.mem_map]
  rintro ⟨c, -, heq⟩
  exact vcardEscape_ne hd heq

theorem map_decoded (text : List Char) : (text.map vcardEscape).map decoded = text := by
  rw [List.map_map]
  exact (List.map_congr_left (fun c _ => decoded_vcardEscape c)).trans (List.map_id text)

/-- `unescape` undoes the escapes. -/
theorem unescape_escaped (text : List Char) : unescape (escaped text) = text := by
  have htokens : tokensFrom false (escaped text) = text.map vcardEscape :=
    Lib.tokens_write (plain_not_mem_escape (by decide) text)
  rw [unescape, unescapeFrom_eq, htokens, map_decoded]

/-- The loop cuts the tokens at the separator, and writes them down again. -/
theorem splitFrom_eq (flag : Bool) (part : List Token) (text : List Char) :
    splitFrom separator flag (Lib.write part) text
      = (cutFrom (.plain separator) part (tokensFrom flag text)).map Lib.write := by
  induction text generalizing flag part with
  | nil => cases flag <;> rfl
  | cons c text ih =>
    have hsnoc (t : Token) : Lib.write part ++ t.text = Lib.write (part ++ [t]) := by
      rw [Lib.write_append, Lib.write_cons, Lib.write_nil, List.append_nil]
    cases flag with
    | true =>
      have hrest := ih false (part ++ [.escaped c])
      rw [← hsnoc] at hrest
      show splitFrom separator false (Lib.write part ++ ['\\', c]) text = _
      refine hrest.trans ?_
      show _ = (cutFrom _ part (.escaped c :: tokensFrom false text)).map Lib.write
      rw [cutFrom, if_neg (by simp)]
    | false =>
      rw [splitFrom, if_neg Bool.false_ne_true]
      by_cases hc : c = '\\'
      · rw [if_pos hc, hc, Lib.tokensFrom_backslash]
        exact ih true part
      · rw [if_neg hc, Lib.tokensFrom_plain hc, cutFrom]
        by_cases hsep : c = separator
        · rw [if_pos hsep, if_pos (congrArg Token.plain hsep), List.map_cons]
          exact congrArg (_ :: ·) (ih false [])
        · have hne : Token.plain c ≠ .plain separator := fun heq => hsep (Token.plain.inj heq)
          rw [if_neg hsep, if_neg hne]
          have hrest := ih false (part ++ [.plain c])
          rw [← hsnoc] at hrest
          exact hrest

/-- A part is read token by token once more, when it is unescaped. -/
theorem unescape_write {part : List Token} (h : Token.plain '\\' ∉ part) :
    unescape (Lib.write part) = part.map decoded := by
  rw [unescape, unescapeFrom_eq]
  exact congrArg (List.map decoded) (Lib.tokens_write h)

/-- The parts of a value are the decoded parts between separators. -/
theorem splitUnescaped_eq (value : List Char) (separator : Char) :
    splitUnescaped value separator
      = (cutAt (.plain separator) (Lib.tokens value)).map (fun part => part.map decoded) := by
  have hsplit : splitFrom separator false [] value
      = (cutAt (.plain separator) (Lib.tokens value)).map Lib.write := splitFrom_eq false [] value
  rw [splitUnescaped, hsplit, List.map_map]
  refine List.map_congr_left (fun part hpart => unescape_write (fun hmem => ?_))
  exact Lib.plain_backslash_not_mem false value (Lib.mem_of_mem_cutAt hpart hmem)

/-- Escaped components, joined at separators. -/
def joined (separator : Char) (components : List (List Char)) : List Char :=
  [separator].intercalate (components.map escaped)

theorem joined_eq (separator : Char) (components : List (List Char)) :
    joined separator components
      = Lib.write ([Token.plain separator].intercalate
        (components.map (fun text => text.map vcardEscape))) := by
  unfold joined
  induction components with
  | nil => rfl
  | cons text components ih =>
    cases components with
    | nil =>
      simp only [List.map_cons, List.map_nil, List.intercalate_singleton]
      rfl
    | cons next components =>
      simp only [List.map_cons, List.intercalate_cons_cons] at ih ⊢
      rw [ih, Lib.write_append, Lib.write_append]
      rfl

/-- Joined components are split again, of two characters that `escaped` leaves no plain. -/
theorem splitUnescaped_joined (hsep : separator ∈ [';', ',']) {components : List (List Char)}
    (hsome : components ≠ []) :
    splitUnescaped (joined separator components) separator = components := by
  have hplain : separator ∈ ['\\', ';', ','] := List.mem_cons_of_mem _ hsep
  have hread : Lib.tokens (joined separator components)
      = [Token.plain separator].intercalate
        (components.map (fun text => text.map vcardEscape)) := by
    rw [joined_eq]
    refine Lib.tokens_write (fun hmem => ?_)
    obtain ⟨text, htext, hmem⟩ | heq := Lib.mem_intercalate hmem
    · obtain ⟨component, -, rfl⟩ := List.mem_map.mp htext
      exact plain_not_mem_escape (by decide) component hmem
    · have : separator = '\\' := (Token.plain.inj heq).symm
      rw [this] at hsep
      exact absurd hsep (by decide)
  have hcut : cutAt (.plain separator) (Lib.tokens (joined separator components))
      = components.map (fun text => text.map vcardEscape) := by
    rw [hread]
    refine Lib.cutAt_intercalate (by simpa using hsome) (fun part hpart => ?_)
    obtain ⟨component, -, rfl⟩ := List.mem_map.mp hpart
    exact plain_not_mem_escape hplain component
  rw [splitUnescaped_eq, hcut, List.map_map]
  exact (List.map_congr_left (fun text _ => map_decoded text)).trans (List.map_id components)

/-! ### Reading undoes writing -/

/-- The three readers of a card: its lines, a text and its components. -/
theorem reading_undoes_writing :
    (∀ first more, (∀ f ∈ first :: more.map Prod.snd, Logical f) → Safe first more →
      unfold (written first more) = (first :: more.map Prod.snd).map Folded.line) ∧
    (∀ text, unescape (escaped text) = text) ∧
    ∀ components, components ≠ [] →
      splitUnescaped (joined ';' components) ';' = components :=
  ⟨fun _ _ hlogical hsafe => unfold_written hlogical hsafe, unescape_escaped,
    fun _ hsome => splitUnescaped_joined List.mem_cons_self hsome⟩

/-- A line `a\rb` that is folded behind its carriage return, by a bare line feed. -/
def folded_return : Folded where
  first := 'a'
  rest := [(none, '\r'), (some ⟨false, false⟩, 'b')]

/-- The carriage return is lost with the fold. Nor are there cards of no lines, or values of
no components. -/
theorem carriage_return_lost :
    Logical folded_return ∧ unfold (written folded_return []) = [['a', 'b']] ∧
      folded_return.line = ['a', '\r', 'b'] ∧
      unfold [] = [[]] ∧ splitUnescaped (joined ';' []) ';' = [[]] := by
  refine ⟨⟨by decide, by decide, by decide⟩, ?_, rfl, rfl, rfl⟩
  decide

/-- The same line, folded behind its carriage return by a full line break, and one more. -/
theorem reading_undoes_writing_folded :
    unfold ['a', '\r', '\r', '\n', '\t', 'b', '\n', ';'] = [['a', '\r', 'b'], [';']] ∧
      unescape ['\\', 'n', '\\', ';'] = ['\n', ';'] ∧
      splitUnescaped ['\\', '\\', ';', '\\', ';'] ';' = [['\\'], [';']] := by
  obtain ⟨hlines, htext, hcomponents⟩ := reading_undoes_writing
  refine ⟨?_, htext ['\n', ';'], hcomponents [['\\'], [';']] (List.cons_ne_nil _ _)⟩
  refine hlines ⟨'a', [(none, '\r'), (some ⟨true, true⟩, 'b')]⟩ [(false, ⟨';', []⟩)] ?_ ?_
  · intro f hf
    obtain rfl | rfl : f = _ ∨ f = _ := by simpa using hf
    · exact ⟨by decide, by decide, by decide⟩
    · exact ⟨by decide, by decide, by decide⟩
  · exact ⟨⟨by simp, by simp [SafeFrom]⟩, by simp [Safe, SafeFrom]⟩

end DeskLink.Contacts
