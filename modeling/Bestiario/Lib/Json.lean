import Mathlib.Tactic.Common

/-! # JSON, written two ways

    A value serialised directly writes its members in the order they are
    DECLARED.  A value first turned into a dynamic one has its members in a map
    ordered by KEY, and writes them in that order.  `render` is the text of
    either; `toValue` is the passage from one to the other.

    Texts are lists of characters until the end, so that what a text starts
    with can be read off it. -/

namespace Json

/-- A JSON value; a number is the text it is written as. -/
inductive Value where
  | null
  | bool (b : Bool)
  | num (text : String)
  | str (s : String)
  | arr (items : List Value)
  | obj (members : List (String × Value))

/-! ## The text -/

/-- A hexadecimal digit, lowercase. -/
def hexDigit (n : Nat) : Char := if n < 10 then Char.ofNat (48 + n) else Char.ofNat (87 + n)

/-- One character of a string, escaped where it has to be. -/
def escape (c : Char) : List Char :=
  if c = '"' then ['\\', '"']
  else if c = '\\' then ['\\', '\\']
  else if c = '\n' then ['\\', 'n']
  else if c = '\r' then ['\\', 'r']
  else if c = '\t' then ['\\', 't']
  else if c.toNat = 8 then ['\\', 'b']
  else if c.toNat = 12 then ['\\', 'f']
  else if c.toNat < 32 then
    ['\\', 'u', '0', '0', hexDigit (c.toNat / 16), hexDigit (c.toNat % 16)]
  else [c]

/-- A string between quotes. -/
def quote (s : String) : List Char := '"' :: (s.toList.flatMap escape ++ ['"'])

mutual

/-- The compact text of a value. -/
def render : Value → List Char
  | .null => "null".toList
  | .bool true => "true".toList
  | .bool false => "false".toList
  | .num text => text.toList
  | .str s => quote s
  | .arr items => '[' :: (renderItems items ++ [']'])
  | .obj members => '\x7b' :: (renderMembers members ++ ['\x7d'])

/-- The items of an array, separated by commas. -/
def renderItems : List Value → List Char
  | [] => []
  | [item] => render item
  | item :: rest => render item ++ ',' :: renderItems rest

/-- The members of an object, separated by commas. -/
def renderMembers : List (String × Value) → List Char
  | [] => []
  | [(key, value)] => quote key ++ ':' :: render value
  | (key, value) :: rest => quote key ++ ':' :: render value ++ ',' :: renderMembers rest

end

/-- The text of a value. -/
def text (value : Value) : String := String.ofList (render value)

/-! ## Key order -/

/-- A member put where its key belongs; a key already there is overwritten. -/
def insertKey (key : String) (value : Value) : List (String × Value) → List (String × Value)
  | [] => [(key, value)]
  | (k, v) :: rest =>
      if key < k then (key, value) :: (k, v) :: rest
      else if key = k then (key, value) :: rest
      else (k, v) :: insertKey key value rest

mutual

/-- The dynamic value: every object ordered by key. -/
def toValue : Value → Value
  | .null => .null
  | .bool b => .bool b
  | .num text => .num text
  | .str s => .str s
  | .arr items => .arr (toValueItems items)
  | .obj members => .obj (toValueMembers members [])

/-- The items of an array, each turned. -/
def toValueItems : List Value → List Value
  | [] => []
  | item :: rest => toValue item :: toValueItems rest

/-- The members of an object put into the map one after another. -/
def toValueMembers : List (String × Value) → List (String × Value) → List (String × Value)
  | [], map => map
  | (key, value) :: rest, map => toValueMembers rest (insertKey key (toValue value) map)

end

/-! ## What an object starts with -/

/-- A character that is written as it is. -/
def Plain (c : Char) : Prop := escape c = [c]

/-- The first key of an object is the first thing its text says. -/
theorem render_obj_third {key : String} {c : Char} {cs : List Char} (value : Value)
    (rest : List (String × Value)) (hkey : key.toList = c :: cs) (hc : Plain c) :
    (render (.obj ((key, value) :: rest)))[2]? = some c := by
  have hquote : quote key = '"' :: c :: (cs.flatMap escape ++ ['"']) := by
    rw [quote, hkey, List.flatMap_cons, hc]
    rfl
  cases rest with
  | nil =>
      rw [render, renderMembers, hquote]
      rfl
  | cons member rest =>
      obtain ⟨k, v⟩ := member
      rw [render, renderMembers, hquote]
      · rfl
      · exact List.cons_ne_nil _ _

/-- **OBJECTS THAT START WITH DIFFERENT KEYS ARE DIFFERENT TEXTS.** -/
theorem text_ne_of_keys {key key' : String} {c c' : Char} {cs cs' : List Char}
    {value value' : Value} {rest rest' : List (String × Value)}
    (hkey : key.toList = c :: cs) (hkey' : key'.toList = c' :: cs') (hc : Plain c)
    (hc' : Plain c') (hne : c ≠ c') :
    text (.obj ((key, value) :: rest)) ≠ text (.obj ((key', value') :: rest')) := by
  intro h
  have hchars := String.ofList_inj.mp h
  have hthird := render_obj_third value rest hkey hc
  rw [hchars, render_obj_third value' rest' hkey' hc'] at hthird
  exact hne (Option.some.inj hthird).symm

/-- The last member of an object closes its text. -/
theorem renderMembers_concat (members : List (String × Value)) (key : String)
    (value : Value) : ∃ before, renderMembers (members ++ [(key, value)])
      = before ++ (quote key ++ ':' :: render value) := by
  induction members with
  | nil => exact ⟨[], rfl⟩
  | cons member rest ih =>
      obtain ⟨k, v⟩ := member
      obtain ⟨before, hbefore⟩ := ih
      refine ⟨quote k ++ ':' :: render v ++ ',' :: before, ?_⟩
      rw [List.cons_append, renderMembers, hbefore]
      · simp
      · simp

/-! ## Reading a string back

    The escapes are a prefix code: one character at a time comes back off the front
    of a text.  A list of strings is then read off its text, since what follows a
    string tells whether another does. -/

/-- The value of a hexadecimal digit. -/
def hexValue (c : Char) : Nat := if c.toNat < 87 then c.toNat - 48 else c.toNat - 87

/-- The first character of a text, unescaped, and what follows it. -/
def unescape : List Char → Option (Char × List Char)
  | '\\' :: 'u' :: '0' :: '0' :: high :: low :: rest =>
      some (Char.ofNat (16 * hexValue high + hexValue low), rest)
  | '\\' :: 'n' :: rest => some ('\n', rest)
  | '\\' :: 'r' :: rest => some ('\r', rest)
  | '\\' :: 't' :: rest => some ('\t', rest)
  | '\\' :: 'b' :: rest => some (Char.ofNat 8, rest)
  | '\\' :: 'f' :: rest => some (Char.ofNat 12, rest)
  | '\\' :: c :: rest => some (c, rest)
  | c :: rest => some (c, rest)
  | [] => none

theorem hexValue_hexDigit {n : Nat} (h : n < 16) : hexValue (hexDigit n) = n := by
  have hall : ∀ n < 16, hexValue (hexDigit n) = n := by decide
  exact hall n h

/-- A character escaped is that character read back. -/
theorem unescape_escape (c : Char) (rest : List Char) :
    unescape (escape c ++ rest) = some (c, rest) := by
  have hchar : ∀ {n : Nat}, c.toNat = n → Char.ofNat n = c := fun h => h ▸ Char.ofNat_toNat c
  rw [escape]
  split_ifs with hquote hslash hline hreturn htab hback hfeed hcontrol
  · subst hquote
    rfl
  · subst hslash
    rfl
  · subst hline
    rfl
  · subst hreturn
    rfl
  · subst htab
    rfl
  · rw [← hchar hback]
    rfl
  · rw [← hchar hfeed]
    rfl
  · show some (Char.ofNat _, rest) = _
    rw [hexValue_hexDigit (by omega), hexValue_hexDigit (by omega), hchar (by omega)]
  · -- Written as it is: nothing but a backslash starts an escape.
    show unescape (c :: rest) = _
    unfold unescape
    split
    · rename_i heq
      exact absurd (List.cons.inj heq).1 hslash
    · rename_i heq
      exact absurd (List.cons.inj heq).1 hslash
    · rename_i heq
      exact absurd (List.cons.inj heq).1 hslash
    · rename_i heq
      exact absurd (List.cons.inj heq).1 hslash
    · rename_i heq
      exact absurd (List.cons.inj heq).1 hslash
    · rename_i heq
      exact absurd (List.cons.inj heq).1 hslash
    · rename_i heq
      exact absurd (List.cons.inj heq).1 hslash
    · rename_i heq
      obtain ⟨rfl, rfl⟩ := List.cons.inj heq
      rfl
    · rename_i heq
      exact nomatch heq

/-- No escape starts with the quote that closes a string. -/
theorem escape_ne_quote (c : Char) (rest rest' : List Char) :
    escape c ++ rest ≠ '"' :: rest' := by
  intro h
  have hread := unescape_escape c rest
  rw [h] at hread
  have hc : '"' = c := congrArg Prod.fst (Option.some.inj hread)
  rw [← hc] at h
  exact absurd (List.cons.inj h).1 (by decide)

theorem flatMap_escape_inj {cs ds x y : List Char}
    (h : cs.flatMap escape ++ '"' :: x = ds.flatMap escape ++ '"' :: y) : cs = ds ∧ x = y := by
  induction cs generalizing ds with
  | nil =>
      cases ds with
      | nil => exact ⟨rfl, (List.cons.inj h).2⟩
      | cons d ds =>
          rw [List.flatMap_cons, List.append_assoc] at h
          exact absurd h.symm (escape_ne_quote d _ _)
  | cons c cs ih =>
      cases ds with
      | nil =>
          rw [List.flatMap_cons, List.append_assoc] at h
          exact absurd h (escape_ne_quote c _ _)
      | cons d ds =>
          rw [List.flatMap_cons, List.flatMap_cons, List.append_assoc, List.append_assoc] at h
          have hread := congrArg unescape h
          rw [unescape_escape, unescape_escape, Option.some.injEq, Prod.mk.injEq] at hread
          obtain ⟨rfl, hrest⟩ := hread
          obtain ⟨rfl, rfl⟩ := ih hrest
          exact ⟨rfl, rfl⟩

/-- A string is read back off the front of a text. -/
theorem quote_append_inj {s t : String} {x y : List Char} (h : quote s ++ x = quote t ++ y) :
    s = t ∧ x = y := by
  rw [quote, quote, List.cons_append, List.cons_append, List.append_assoc, List.append_assoc] at h
  obtain ⟨hchars, hrest⟩ := flatMap_escape_inj (List.cons.inj h).2
  exact ⟨String.toList_inj.mp hchars, hrest⟩

theorem quote_ne_bracket (s : String) (x y : List Char) : quote s ++ x ≠ ']' :: y := by
  intro h
  exact absurd (List.cons.inj h).1 (by decide)

theorem renderItems_strs (s t : String) (ss : List String) :
    renderItems ((s :: t :: ss).map .str) = quote s ++ ',' :: renderItems ((t :: ss).map .str) := by
  rw [List.map_cons, List.map_cons, renderItems, render]
  exact List.cons_ne_nil _ _

theorem renderItems_str (s : String) : renderItems ([s].map .str) = quote s := by
  rw [List.map_cons, List.map_nil, renderItems, render]

/-- The strings of an array are read back off its items. -/
theorem renderItems_str_inj {ss ts : List String}
    (h : renderItems (ss.map .str) ++ [']'] = renderItems (ts.map .str) ++ [']']) : ss = ts := by
  induction ss generalizing ts with
  | nil =>
      cases ts with
      | nil => rfl
      | cons t ts =>
          cases ts with
          | nil =>
              rw [renderItems_str] at h
              exact absurd h.symm (quote_ne_bracket t _ _)
          | cons t' ts =>
              rw [renderItems_strs, List.append_assoc] at h
              exact absurd h.symm (quote_ne_bracket t _ _)
  | cons s ss ih =>
      cases ts with
      | nil =>
          cases ss with
          | nil =>
              rw [renderItems_str] at h
              exact absurd h (quote_ne_bracket s _ _)
          | cons s' ss =>
              rw [renderItems_strs, List.append_assoc] at h
              exact absurd h (quote_ne_bracket s _ _)
      | cons t ts =>
          cases ss with
          | nil =>
              cases ts with
              | nil =>
                  rw [renderItems_str, renderItems_str] at h
                  rw [(quote_append_inj h).1]
              | cons t' ts =>
                  rw [renderItems_str, renderItems_strs, List.append_assoc] at h
                  have hnext := (List.cons.inj (quote_append_inj h).2).1
                  exact absurd hnext (by decide)
          | cons s' ss =>
              cases ts with
              | nil =>
                  rw [renderItems_str, renderItems_strs, List.append_assoc] at h
                  have hnext := (List.cons.inj (quote_append_inj h).2).1
                  exact absurd hnext (by decide)
              | cons t' ts =>
                  rw [renderItems_strs, renderItems_strs, List.append_assoc,
                    List.append_assoc] at h
                  obtain ⟨rfl, hrest⟩ := quote_append_inj h
                  rw [ih (List.cons.inj hrest).2]

/-- **AN ARRAY OF STRINGS IS READ BACK OFF ITS TEXT.** -/
theorem text_strings_inj {ss ts : List String}
    (h : text (.arr (ss.map .str)) = text (.arr (ts.map .str))) : ss = ts := by
  have hchars := String.ofList_inj.mp h
  rw [render, render] at hchars
  exact renderItems_str_inj (List.cons.inj hchars).2

/-! ## Control characters -/

/-- A text holds no control character: each is escaped. -/
def Printable (text : List Char) : Prop := ∀ c ∈ text, 32 ≤ c.toNat

theorem hexDigit_printable {n : Nat} (h : n < 16) : 32 ≤ (hexDigit n).toNat := by
  have hall : ∀ n < 16, 32 ≤ (hexDigit n).toNat := by decide
  exact hall n h

theorem escape_printable (c : Char) : Printable (escape c) := by
  intro d hd
  rw [escape] at hd
  split_ifs at hd with hquote hslash hline hreturn htab hback hfeed hcontrol
  · simp only [List.mem_cons, List.not_mem_nil, or_false] at hd
    rcases hd with rfl | rfl <;> decide
  · simp only [List.mem_cons, List.not_mem_nil, or_false] at hd
    rcases hd with rfl | rfl <;> decide
  · simp only [List.mem_cons, List.not_mem_nil, or_false] at hd
    rcases hd with rfl | rfl <;> decide
  · simp only [List.mem_cons, List.not_mem_nil, or_false] at hd
    rcases hd with rfl | rfl <;> decide
  · simp only [List.mem_cons, List.not_mem_nil, or_false] at hd
    rcases hd with rfl | rfl <;> decide
  · simp only [List.mem_cons, List.not_mem_nil, or_false] at hd
    rcases hd with rfl | rfl <;> decide
  · simp only [List.mem_cons, List.not_mem_nil, or_false] at hd
    rcases hd with rfl | rfl <;> decide
  · simp only [List.mem_cons, List.not_mem_nil, or_false] at hd
    rcases hd with rfl | rfl | rfl | rfl | rfl | rfl
    · decide
    · decide
    · decide
    · decide
    · exact hexDigit_printable (by omega)
    · exact hexDigit_printable (by omega)
  · rw [List.mem_singleton] at hd
    exact hd ▸ Nat.le_of_not_lt hcontrol

theorem quote_printable (s : String) : Printable (quote s) := by
  intro d hd
  rw [quote, List.mem_cons, List.mem_append, List.mem_singleton, List.mem_flatMap] at hd
  rcases hd with rfl | ⟨c, -, hc⟩ | rfl
  · decide
  · exact escape_printable c d hc
  · decide

theorem renderItems_str_printable (ss : List String) : Printable (renderItems (ss.map .str)) := by
  induction ss with
  | nil => exact fun _ hd => nomatch hd
  | cons s ss ih =>
      cases ss with
      | nil =>
          rw [renderItems_str]
          exact quote_printable s
      | cons s' ss =>
          intro d hd
          rw [renderItems_strs, List.mem_append, List.mem_cons] at hd
          rcases hd with hd | rfl | hd
          · exact quote_printable s d hd
          · decide
          · exact ih d hd

/-- The text of an array of strings holds no control character. -/
theorem text_strings_printable (ss : List String) :
    Printable (text (.arr (ss.map .str))).toList := by
  intro d hd
  rw [text, String.toList_ofList, render, List.mem_cons, List.mem_append,
    List.mem_singleton] at hd
  rcases hd with rfl | hd | rfl
  · decide
  · exact renderItems_str_printable ss d hd
  · decide

end Json
