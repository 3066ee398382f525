import DeskLink.Capture.Wifi
import DeskLink.Lib.Escaped

/-!
# `DeskLink.Proofs.Capture.Wifi`: the reader and the grammar of a Wi-Fi code

The grammar cuts the code at each `;` that is not escaped and each part at its first such
`:` (`parts`, `partKey`, `partValue`). `wifiFields_eq` says what the loop makes of the
parts instead: a part with an empty key leaves its value behind, and the next part with a
key gets it in front of its own (`filled`).

`Unspilled` says that this does not reach a key. `wifi_grammar` says that the fields are
those of the grammar, and a written name and password are read back, just when it does
not.
-/

set_option autoImplicit false

namespace DeskLink.Capture

open Lib (Token tokens tokensFrom endedFrom ended)

/-! ### The grammar -/

/-- A part up to its first `:`. -/
def partKey : List Token → List Char
  | [] => []
  | t :: part => if t = .plain ':' then [] else t.char :: partKey part

/-- A part behind its first `:`. -/
def partValue : List Token → List Char
  | [] => []
  | t :: part => if t = .plain ':' then part.map Token.char else partValue part

/-- The parts of a code, each ended by a `;`. -/
def parts (body : List Char) : List (List Token) := ended (.plain ';') (tokens body)

/-- The fields of the parts: a later part with the same key wins, and one with an empty
key is nothing. -/
def fieldsOf (fields : KeyMap String) : List (List Token) → KeyMap String
  | [] => fields
  | part :: parts =>
    if partKey part = [] then fieldsOf fields parts
    else
      fieldsOf (fields.insert (String.ofList (partKey part)) (String.ofList (partValue part))) parts

/-! ### The loop, part by part -/

/-- The fields that the loop makes of the parts, `carried` being the value it has left. -/
def filled (fields : KeyMap String) (carried : List Char) : List (List Token) → KeyMap String
  | [] => fields
  | part :: parts =>
    if partKey part = [] then filled fields (carried ++ partValue part) parts
    else
      filled (fields.insert (String.ofList (partKey part))
        (String.ofList (carried ++ partValue part))) [] parts

/-- One token of the loop. -/
def tokenStep (r : WifiReader) : Token → WifiReader
  | .escaped c => r.push c
  | .plain c => r.step c

/-- The loop within a part. -/
def reading (fields : KeyMap String) (carried : List Char) (part : List Token) : WifiReader :=
  { fields, key := partKey part, value := carried ++ partValue part
    inValue := decide (Token.plain ':' ∈ part) }

variable {fields : KeyMap String} {carried key : List Char} {part : List Token} {t : Token}
variable {ps : List (List Token)}

theorem partKey_snoc (part : List Token) (t : Token) :
    partKey (part ++ [t]) = if Token.plain ':' ∈ part ∨ t = .plain ':' then partKey part
      else partKey part ++ [t.char] := by
  induction part with
  | nil => by_cases ht : t = .plain ':' <;> simp [partKey, ht]
  | cons first part ih =>
    rw [List.cons_append, partKey, partKey, ih]
    by_cases hfirst : first = .plain ':'
    · simp [hfirst]
    · have hne : Token.plain ':' ≠ first := Ne.symm hfirst
      by_cases hrest : Token.plain ':' ∈ part ∨ t = .plain ':'
      · simp [hfirst, hne, hrest]
      · simp [hfirst, hne, hrest]

theorem partValue_snoc (part : List Token) (t : Token) :
    partValue (part ++ [t]) = if Token.plain ':' ∈ part then partValue part ++ [t.char]
      else partValue part := by
  induction part with
  | nil => by_cases ht : t = .plain ':' <;> simp [partValue, ht]
  | cons first part ih =>
    rw [List.cons_append, partValue, partValue, ih]
    by_cases hfirst : first = .plain ':'
    · simp [hfirst]
    · have hne : Token.plain ':' ≠ first := Ne.symm hfirst
      by_cases hrest : Token.plain ':' ∈ part
      · simp [hfirst, hrest]
      · simp [hfirst, hne, hrest]

theorem push_reading (ht : t ≠ .plain ':') :
    (reading fields carried part).push t.char = reading fields carried (part ++ [t]) := by
  unfold WifiReader.push reading
  rw [partKey_snoc, partValue_snoc]
  by_cases hmem : Token.plain ':' ∈ part
  · simp [hmem]
  · simp [hmem, ht, Ne.symm ht]

/-- A token that is not the end of the part. -/
theorem tokenStep_reading (hend : t ≠ .plain ';') (hslash : t ≠ .plain '\\') :
    tokenStep (reading fields carried part) t = reading fields carried (part ++ [t]) := by
  cases t with
  | escaped c => exact push_reading (t := .escaped c) (by simp)
  | plain c =>
    have hc : c ≠ ';' := fun heq => hend (congrArg Token.plain heq)
    have hc' : c ≠ '\\' := fun heq => hslash (congrArg Token.plain heq)
    show WifiReader.step (reading fields carried part) c = _
    by_cases hcolon : c = ':'
    · -- The first one begins the value, and a later one is part of it.
      subst hcolon
      by_cases hmem : Token.plain ':' ∈ part
      · simp [WifiReader.step, WifiReader.push, reading, hmem, partKey_snoc, partValue_snoc,
          Token.char]
      · simp [WifiReader.step, reading, hmem, partKey_snoc, partValue_snoc]
    · have hstep : WifiReader.step (reading fields carried part) c
          = (reading fields carried part).push c := by
        simp [WifiReader.step, reading, hc, hc', hcolon]
      rw [hstep]
      exact push_reading (t := .plain c) (fun heq => hcolon (Token.plain.inj heq))

/-- The end of a part. -/
theorem tokenStep_end : tokenStep (reading fields carried part) (.plain ';')
    = if partKey part = [] then reading fields (carried ++ partValue part) []
      else reading (fields.insert (String.ofList (partKey part))
        (String.ofList (carried ++ partValue part))) [] [] := by
  by_cases hkey : partKey part = []
  · simp [tokenStep, WifiReader.step, reading, hkey, partKey, partValue]
  · simp [tokenStep, WifiReader.step, reading, hkey, partKey, partValue]

theorem foldl_tokenStep {ts : List Token} (h : Token.plain '\\' ∉ ts) :
    (ts.foldl tokenStep (reading fields carried part)).fields
      = filled fields carried (endedFrom (.plain ';') part ts) := by
  induction ts generalizing fields carried part with
  | nil => rfl
  | cons t ts ih =>
    rw [List.mem_cons, not_or] at h
    rw [List.foldl_cons, endedFrom]
    by_cases hend : t = .plain ';'
    · rw [if_pos hend, hend, tokenStep_end, filled]
      split
      · exact ih h.2
      · exact ih h.2
    · rw [if_neg hend, tokenStep_reading hend (Ne.symm h.1)]
      exact ih h.2

/-- The loop over characters, with its flag, is the loop over tokens. -/
theorem foldl_step {r : WifiReader} (text : List Char) (flag : Bool) (h : r.escaped = false) :
    (text.foldl WifiReader.step { r with escaped := flag }).fields
      = ((tokensFrom flag text).foldl tokenStep r).fields := by
  have hpush (r : WifiReader) (c : Char) (hr : r.escaped = false) : (r.push c).escaped = false := by
    unfold WifiReader.push
    split <;> exact hr
  have hkeep (r : WifiReader) (c : Char) (hr : r.escaped = false) (hc : c ≠ '\\') :
      (r.step c).escaped = false := by
    unfold WifiReader.step
    rw [hr, if_neg Bool.false_ne_true, if_neg hc]
    split
    · rfl
    · split
      · split <;> rfl
      · exact hpush r c hr
  have hsame (r : WifiReader) (hr : r.escaped = false) : { r with escaped := false } = r := by
    rw [← hr]
  induction text generalizing flag r with
  | nil => cases flag <;> rfl
  | cons c text ih =>
    rw [List.foldl_cons]
    cases flag with
    | true =>
      have hstep : WifiReader.step { r with escaped := true } c
          = { r.push c with escaped := false } := by
        cases hvalue : r.inValue <;> simp [WifiReader.step, WifiReader.push, hvalue]
      rw [hstep]
      exact ih false (hpush r c h)
    | false =>
      rw [hsame r h]
      by_cases hc : c = '\\'
      · have hstep : r.step c = { r with escaped := true } := by
          unfold WifiReader.step
          rw [h, if_neg Bool.false_ne_true, if_pos hc]
        rw [hstep, hc, Lib.tokensFrom_backslash]
        exact ih true h
      · have hrest := ih (r := r.step c) false (hkeep r c h hc)
        rw [hsame _ (hkeep r c h hc)] at hrest
        rw [Lib.tokensFrom_plain hc, List.foldl_cons]
        exact hrest

/-- What the loop makes of a code. -/
theorem wifiFields_eq (body : List Char) : wifiFields body = filled ∅ [] (parts body) :=
  (foldl_step (r := reading ∅ [] []) body false rfl).trans
    (foldl_tokenStep (Lib.plain_backslash_not_mem false body))

/-! ### What reaches a key -/

/-- No part that gives the key its value comes right after parts with an empty key and
with a value. -/
def Unspilled (key carried : List Char) : List (List Token) → Prop
  | [] => True
  | part :: parts =>
    if partKey part = [] then Unspilled key (carried ++ partValue part) parts
    else
      (partKey part = key → (∀ later ∈ parts, partKey later ≠ key) → carried = []) ∧
        Unspilled key [] parts

/-- A key that no part has stays as it was. -/
theorem fieldsOf_of_not_mem {key : String}
    (h : ∀ part ∈ ps, partKey part ≠ [] → String.ofList (partKey part) ≠ key) :
    (fieldsOf fields ps)[key]? = fields[key]? := by
  induction ps generalizing fields with
  | nil => rfl
  | cons part ps ih =>
    have hrest := @ih fields (fun p hp => h p (List.mem_cons_of_mem _ hp))
    rw [fieldsOf]
    split
    · exact hrest
    · rename_i hkey
      rw [ih (fun p hp => h p (List.mem_cons_of_mem _ hp)), getElem?_keyInsert,
        if_neg (h part List.mem_cons_self hkey)]

theorem ofList_inj {a b : List Char} : String.ofList a = String.ofList b ↔ a = b := by
  rw [← String.toList_inj, String.toList_ofList, String.toList_ofList]

/-- The loop and the grammar give a key one value just when nothing spills to it. -/
theorem filled_iff (hkey : key ≠ []) {other : KeyMap String} :
    (filled fields carried ps)[String.ofList key]? = (fieldsOf other ps)[String.ofList key]? ↔
      ((∀ part ∈ ps, partKey part ≠ key) →
        fields[String.ofList key]? = other[String.ofList key]?) ∧ Unspilled key carried ps := by
  induction ps generalizing fields other carried with
  | nil =>
    show fields[String.ofList key]? = other[String.ofList key]? ↔ _
    simp [Unspilled]
  | cons part ps ih =>
    rw [filled, fieldsOf, Unspilled]
    by_cases hpart : partKey part = []
    · rw [if_pos hpart, if_pos hpart, if_pos hpart, ih]
      have hne : partKey part ≠ key := by
        rw [hpart]
        exact Ne.symm hkey
      simp [hne]
    · rw [if_neg hpart, if_neg hpart, if_neg hpart, ih, getElem?_keyInsert, getElem?_keyInsert]
      by_cases hsame : partKey part = key
      · rw [hsame, if_pos rfl, if_pos rfl, Option.some.injEq, ofList_inj, List.append_left_eq_self]
        simp [hsame]
      · have hne : String.ofList (partKey part) ≠ String.ofList key := fun heq =>
          hsame (ofList_inj.mp heq)
        rw [if_neg hne, if_neg hne]
        simp [hsame]

/-- Nothing is stored under the empty key. -/
theorem filled_empty_key : (filled fields carried ps)[""]? = fields[""]? := by
  induction ps generalizing fields carried with
  | nil => rfl
  | cons part ps ih =>
    rw [filled]
    split
    · exact ih
    · rename_i hkey
      rw [ih, getElem?_keyInsert, if_neg]
      intro heq
      have hlist := congrArg String.toList heq
      rw [String.toList_ofList] at hlist
      exact hkey hlist

theorem wifiFields_iff (body : List Char) : wifiFields body = fieldsOf ∅ (parts body) ↔
    ∀ key, key ≠ [] → Unspilled key [] (parts body) := by
  rw [wifiFields_eq]
  constructor
  · intro heq key hkey
    have hget := congrArg (fun fields : KeyMap String => fields[String.ofList key]?) heq
    exact ((filled_iff hkey).mp hget).2
  · intro hall
    refine Std.ExtTreeMap.ext_getElem? (fun key => ?_)
    by_cases hkey : key = ""
    · rw [hkey, filled_empty_key, fieldsOf_of_not_mem]
      intro part _ hpart heq
      have hlist := congrArg String.toList heq
      rw [String.toList_ofList] at hlist
      exact hpart hlist
    · have hlist : key.toList ≠ [] := fun heq => hkey (String.toList_inj.mp heq)
      have hget : (filled ∅ [] (parts body))[String.ofList key.toList]?
          = (fieldsOf ∅ (parts body))[String.ofList key.toList]? :=
        (filled_iff hlist).mpr ⟨fun _ => rfl, hall key.toList hlist⟩
      rwa [String.ofList_toList] at hget

/-! ### The white space behind a code -/

theorem mark_toList : "WIFI:".toList = ['W', 'I', 'F', 'I', ':'] := rfl

/-- The code of a text that starts with `WIFI:` is the rest, up to white space. -/
theorem wifiBody_mark (rest : List Char) :
    wifiBody (String.ofList ("WIFI:".toList ++ rest)) = some (rest.rdropWhile Lib.isWhitespace) := by
  have hstart : ("WIFI:".toList ++ rest).dropWhile Lib.isWhitespace = "WIFI:".toList ++ rest := by
    rw [mark_toList, List.cons_append, List.dropWhile_cons_of_neg (by decide)]
  have htrim : Lib.trim ("WIFI:".toList ++ rest)
      = "WIFI:".toList ++ rest.rdropWhile Lib.isWhitespace := by
    have hmark : "WIFI:".toList.reverse.dropWhile Lib.isWhitespace = "WIFI:".toList.reverse := by
      decide
    rw [Lib.trim, hstart, List.rdropWhile, List.rdropWhile, List.reverse_append,
      List.dropWhile_append, hmark]
    split
    · rename_i hempty
      rw [List.isEmpty_iff.mp hempty, List.reverse_reverse, List.reverse_nil, List.append_nil]
    · rw [List.reverse_append, List.reverse_reverse]
  have hprefix : "WIFI:".toList.isPrefixOf ("WIFI:".toList ++ rest.rdropWhile Lib.isWhitespace)
      = true := List.isPrefixOf_iff_prefix.mpr (List.prefix_append _ _)
  have hdrop : ("WIFI:".toList ++ rest.rdropWhile Lib.isWhitespace).drop "WIFI:".length
      = rest.rdropWhile Lib.isWhitespace := rfl
  unfold wifiBody
  rw [String.toList_ofList, htrim]
  exact (if_pos hprefix).trans (congrArg some hdrop)

/-- White space behind the last `;` ends no part. -/
theorem parts_rdropWhile (rest : List Char) :
    parts (rest.rdropWhile Lib.isWhitespace) = parts rest := by
  obtain ⟨more, hrest, hwhite⟩ := Lib.rdropWhile_append_whitespace rest
  obtain ⟨after, htokens⟩ := Lib.tokensFrom_append false (rest.rdropWhile Lib.isWhitespace) more
  have hnone : Token.plain ';' ∉ tokensFrom after more := by
    intro hmem
    have hmore := hwhite _ (Lib.char_mem_of_mem_tokensFrom hmem)
    exact absurd hmore (by decide)
  conv_rhs => rw [hrest]
  rw [parts, parts, ended, ended, tokens, tokens, htokens, Lib.endedFrom_append_of_not_mem hnone]

/-! ### Written fields -/

/-- A character of a name or a password as it is written. -/
def wifiEscape (c : Char) : Token :=
  if c ∈ ['\\', ';', ':', ',', '"'] then .escaped c else .plain c

/-- A field as it is written. -/
def field (key value : List Char) : List Token :=
  key.map wifiEscape ++ .plain ':' :: value.map wifiEscape

/-- A code with these parts. -/
def code (ps : List (List Token)) : String :=
  String.ofList ("WIFI:".toList ++ ps.flatMap (fun part => Lib.write part ++ [';']))

theorem wifiEscape_ne {c d : Char} (hd : d ∈ ['\\', ';', ':', ',', '"']) :
    wifiEscape c ≠ .plain d := by
  unfold wifiEscape
  split
  · simp
  · rename_i hc
    exact fun heq => hc (Token.plain.inj heq ▸ hd)

theorem wifiEscape_char (c : Char) : (wifiEscape c).char = c := by
  unfold wifiEscape
  split <;> rfl

theorem partKey_field (key value : List Char) : partKey (field key value) = key := by
  induction key with
  | nil => rfl
  | cons c key ih =>
    rw [field, List.map_cons, List.cons_append, partKey, if_neg (wifiEscape_ne (by decide)),
      wifiEscape_char]
    exact congrArg (c :: ·) ih

theorem partValue_field (key value : List Char) : partValue (field key value) = value := by
  induction key with
  | nil =>
    rw [field, List.map_nil, List.nil_append, partValue, if_pos rfl, List.map_map]
    exact (List.map_congr_left (fun c _ => wifiEscape_char c)).trans (List.map_id value)
  | cons c key ih =>
    rw [field, List.map_cons, List.cons_append, partValue, if_neg (wifiEscape_ne (by decide))]
    exact ih

/-- The parts of a code are read back. -/
theorem parts_code (h : ∀ part ∈ ps, Token.plain ';' ∉ part ∧ Token.plain '\\' ∉ part) :
    parts (ps.flatMap (fun part => Lib.write part ++ [';'])) = ps := by
  have hwrite : ps.flatMap (fun part => Lib.write part ++ [';'])
      = Lib.write (ps.flatMap (fun part => part ++ [Token.plain ';'])) := by
    rw [Lib.write, List.flatMap_assoc]
    refine List.flatMap_congr (fun part _ => ?_)
    rw [List.flatMap_append]
    rfl
  have hslash : Token.plain '\\' ∉ ps.flatMap (fun part => part ++ [Token.plain ';']) := by
    rw [List.mem_flatMap]
    rintro ⟨part, hpart, hmem⟩
    obtain hmem | hmem := List.mem_append.mp hmem
    · exact (h part hpart).2 hmem
    · exact absurd (List.mem_singleton.mp hmem) (by decide)
  rw [parts, hwrite, Lib.tokens_write hslash]
  exact Lib.ended_flatMap (fun part hpart => (h part hpart).1)

/-- The grammar gives a key the value of its one part. -/
theorem fieldsOf_one {value : List Char} (hkey : key ≠ []) (hmem : field key value ∈ ps)
    (hone : ∀ part ∈ ps, partKey part = key → part = field key value) :
    (fieldsOf fields ps)[String.ofList key]? = some (String.ofList value) := by
  induction ps generalizing fields with
  | nil => cases hmem
  | cons part ps ih =>
    have hrest : ∀ p ∈ ps, partKey p = key → p = field key value :=
      fun p hp => hone p (List.mem_cons_of_mem _ hp)
    rw [fieldsOf]
    by_cases hlater : field key value ∈ ps
    · split
      · exact ih hlater hrest
      · exact ih hlater hrest
    · -- It is this part, and no later one has the key.
      obtain rfl | hin := List.mem_cons.mp hmem
      · rw [partKey_field, if_neg hkey, fieldsOf_of_not_mem, partValue_field, getElem?_keyInsert,
          if_pos rfl]
        intro p hp _ heq
        exact hlater (hrest p hp (ofList_inj.mp heq) ▸ hp)
      · exact absurd hin hlater

/-- A key that a part has is in the fields. -/
theorem filled_isSome (hkey : key ≠ [])
    (h : fields[String.ofList key]?.isSome = true ∨ ∃ part ∈ ps, partKey part = key) :
    (filled fields carried ps)[String.ofList key]?.isSome = true := by
  induction ps generalizing fields carried with
  | nil =>
    obtain hold | ⟨part, hpart, -⟩ := h
    · exact hold
    · cases hpart
  | cons part ps ih =>
    rw [filled]
    split
    · rename_i hempty
      refine ih (h.imp_right ?_)
      rintro ⟨other, hother, hsame⟩
      obtain rfl | hother := List.mem_cons.mp hother
      · exact absurd (hsame.symm.trans hempty) hkey
      · exact ⟨other, hother, hsame⟩
    · refine ih ?_
      rw [getElem?_keyInsert]
      obtain hold | ⟨other, hother, hsame⟩ := h
      · refine .inl ?_
        split
        · rfl
        · exact hold
      · obtain rfl | hother := List.mem_cons.mp hother
        · rw [if_pos (congrArg String.ofList hsame)]
          exact .inl rfl
        · exact .inr ⟨other, hother, hsame⟩

/-- The network's name and password are those of the fields, for a name that is not empty. -/
theorem wifiOfFields_iff {name password given : String} (hname : name ≠ "")
    (hgiven : fields["P"]? = some given) :
    (∃ network, wifiOfFields fields = some network ∧ network.ssid = name ∧
        network.password = password) ↔ fields["S"]? = some name ∧ given = password := by
  unfold wifiOfFields
  rw [hgiven, Option.getD_some]
  cases fields["S"]? with
  | none => simp
  | some ssid =>
    cases hempty : ssid.isEmpty with
    | true =>
      have hne : ssid ≠ name := by
        rintro rfl
        exact hname (String.isEmpty_iff.mp hempty)
      have hfilter : (some ssid).filter (fun ssid => !ssid.isEmpty) = none := by
        simp [Option.filter, hempty]
      rw [hfilter]
      simp [hne]
    | false =>
      have hfilter : (some ssid).filter (fun ssid => !ssid.isEmpty) = some ssid := by
        simp [Option.filter, hempty]
      rw [hfilter]
      simp

/-- What `wifi` makes of a code with one name and one password. -/
theorem wifi_code_iff {name password : List Char} (hname : name ≠ [])
    (hproper : ∀ part ∈ ps, Token.plain ';' ∉ part ∧ Token.plain '\\' ∉ part)
    (hs : field ['S'] name ∈ ps) (hp : field ['P'] password ∈ ps)
    (hs' : ∀ part ∈ ps, partKey part = ['S'] → part = field ['S'] name)
    (hp' : ∀ part ∈ ps, partKey part = ['P'] → part = field ['P'] password) :
    (∃ network, wifi (code ps) = some network ∧ network.ssid = String.ofList name ∧
        network.password = String.ofList password) ↔
      Unspilled ['S'] [] ps ∧ Unspilled ['P'] [] ps := by
  have hbody : wifi (code ps) = wifiOfFields (filled ∅ [] ps) := by
    have hmark := wifiBody_mark (ps.flatMap (fun part => Lib.write part ++ [';']))
    have hfields : wifiFields ((ps.flatMap (fun part => Lib.write part ++ [';'])).rdropWhile
        Lib.isWhitespace) = filled ∅ [] ps := by
      rw [wifiFields_eq, parts_rdropWhile, parts_code hproper]
    unfold wifi code
    rw [hmark]
    exact congrArg wifiOfFields hfields
  have hvalue {key value : List Char} (hkey : key ≠ []) (hmem : field key value ∈ ps)
      (hone : ∀ part ∈ ps, partKey part = key → part = field key value) :
      (filled ∅ [] ps)[String.ofList key]? = some (String.ofList value) ↔ Unspilled key [] ps := by
    have hone' : (fieldsOf ∅ ps)[String.ofList key]? = some (String.ofList value) :=
      fieldsOf_one hkey hmem hone
    rw [← hone', filled_iff hkey]
    exact and_iff_right (fun _ => rfl)
  have hnot : String.ofList name ≠ "" := by
    rw [ne_eq, ← String.toList_inj, String.toList_ofList]
    exact hname
  have hsome : (filled ∅ [] ps)[String.ofList ['P']]?.isSome = true :=
    filled_isSome (by simp) (.inr ⟨_, hp, partKey_field _ _⟩)
  obtain ⟨given, hgiven⟩ := Option.isSome_iff_exists.mp hsome
  have hS : String.ofList ['S'] = "S" := rfl
  have hP : String.ofList ['P'] = "P" := rfl
  have hname' := hvalue (by simp) hs hs'
  have hpassword := hvalue (by simp) hp hp'
  rw [hgiven, Option.some.injEq] at hpassword
  rw [hP] at hgiven
  rw [hS] at hname'
  rw [hbody, wifiOfFields_iff hnot hgiven, hname', hpassword]

/-- Of a text that starts with `WIFI:` the fields are those of the grammar just when no
part with an empty key leaves its value to a key. A name and a password that are written
with escapes, in any order and among parts with other keys, are read back just when it is
left to neither of them. -/
theorem wifi_grammar (rest : List Char) :
    ((wifiBody (String.ofList ("WIFI:".toList ++ rest))).map wifiFields
        = some (fieldsOf ∅ (parts rest)) ↔
      ∀ key, key ≠ [] → Unspilled key [] (parts rest)) ∧
    ∀ (ps : List (List Token)) (name password : List Char), name ≠ [] →
      (∀ part ∈ ps, Token.plain ';' ∉ part ∧ Token.plain '\\' ∉ part) →
      field ['S'] name ∈ ps → field ['P'] password ∈ ps →
      (∀ part ∈ ps, partKey part = ['S'] → part = field ['S'] name) →
      (∀ part ∈ ps, partKey part = ['P'] → part = field ['P'] password) →
      ((∃ network, wifi (code ps) = some network ∧ network.ssid = String.ofList name ∧
          network.password = String.ofList password) ↔
        Unspilled ['S'] [] ps ∧ Unspilled ['P'] [] ps) := by
  refine ⟨?_, fun ps name password hname hproper hs hp hs' hp' =>
    wifi_code_iff hname hproper hs hp hs' hp'⟩
  rw [wifiBody_mark, Option.map_some, Option.some.injEq, ← parts_rdropWhile rest]
  exact wifiFields_iff _

/-- A café's network, with an empty part at the end of its code. -/
def cafe : List (List Token) := [field ['S'] "Café; 2".toList, field ['P'] "a:b".toList, []]

/-- Its name has an escaped mark, and its password another. -/
theorem wifi_grammar_cafe :
    (∃ network, wifi (code cafe) = some network ∧
        network.ssid = String.ofList "Café; 2".toList ∧
        network.password = String.ofList "a:b".toList) ↔
      Unspilled ['S'] [] cafe ∧ Unspilled ['P'] [] cafe :=
  (wifi_grammar []).2 cafe "Café; 2".toList "a:b".toList (by decide) (by decide) (by decide)
    (by decide) (by decide) (by decide)

/-- A part with an empty key comes before the name. -/
theorem spilled_name : (wifi "WIFI::x;S:Cafe;P:12345678;;").map Wifi.ssid = some "xCafe" := by
  decide +kernel

end DeskLink.Capture
