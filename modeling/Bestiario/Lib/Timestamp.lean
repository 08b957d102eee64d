import Mathlib.Tactic.Ring
import Mathlib.Tactic.IntervalCases
import Mathlib.Tactic.Positivity
import Bestiario.Lib.Calendar

/-! # Timestamps as text

    RFC 3339: an instant written to the second with its offset, and read back.
    A year of four digits is written as it is; any other carries a sign, which
    the reader refuses.  So the text names its instant exactly over the years
    0000 to 9999 (`parse_text`), and nothing outside them is read at all.

    Characters, not strings: a text is read from the front. -/

namespace Timestamp

open Calendar

/-! ## Numbers of a fixed width -/

/-- The decimal digit of a number below ten. -/
def digit (n : Nat) : Char := Char.ofNat (48 + n)

/-- The last `width` decimal digits of a number, zeros in front. -/
def pad : Nat → Nat → List Char
  | 0, _ => []
  | width + 1, n => digit (n / 10 ^ width % 10) :: pad width (n % 10 ^ width)

/-- Exactly `width` digits read onto `acc`, and what follows them. -/
def readDigits : Nat → Nat → List Char → Option (Nat × List Char)
  | 0, acc, s => some (acc, s)
  | _ + 1, _, [] => none
  | width + 1, acc, c :: s =>
      if c.isDigit then readDigits width (10 * acc + (c.toNat - 48)) s else none

/-- A number of exactly `width` digits, and what follows it. -/
def number (width : Nat) (s : List Char) : Option (Nat × List Char) := readDigits width 0 s

theorem digit_isDigit {n : Nat} (h : n < 10) : (digit n).isDigit = true := by
  interval_cases n <;> rfl

theorem digit_toNat {n : Nat} (h : n < 10) : (digit n).toNat - 48 = n := by
  interval_cases n <;> rfl

/-- A padded number is digits. -/
theorem pad_isDigit (width n : Nat) : ∀ c ∈ pad width n, c.isDigit = true := by
  induction width generalizing n with
  | zero =>
      intro c hc
      cases hc
  | succ width ih =>
      intro c hc
      rcases List.mem_cons.mp hc with rfl | hmem
      · exact digit_isDigit (Nat.mod_lt _ (by omega))
      · exact ih _ c hmem

/-- A padded number reads back, whatever was read before it. -/
theorem readDigits_pad (width n acc : Nat) (rest : List Char) (h : n < 10 ^ width) :
    readDigits width acc (pad width n ++ rest) = some (acc * 10 ^ width + n, rest) := by
  induction width generalizing n acc with
  | zero =>
      have hn : n = 0 := by simpa using h
      simp [readDigits, pad, hn]
  | succ width ih =>
      have hten : n / 10 ^ width < 10 := by
        rw [Nat.div_lt_iff_lt_mul (by positivity)]
        simpa [Nat.pow_succ, Nat.mul_comm] using h
      have hmod : n % 10 ^ width < 10 ^ width := Nat.mod_lt _ (by positivity)
      rw [pad, Nat.mod_eq_of_lt hten, List.cons_append, readDigits,
        if_pos (digit_isDigit hten), digit_toNat hten, ih _ _ hmod]
      have hsplit := Nat.div_add_mod n (10 ^ width)
      congr 2
      calc (10 * acc + n / 10 ^ width) * 10 ^ width + n % 10 ^ width
          = 10 * acc * 10 ^ width + (10 ^ width * (n / 10 ^ width) + n % 10 ^ width) := by
            ring
        _ = acc * 10 ^ (width + 1) + n := by
            rw [hsplit, Nat.pow_succ]
            ring

/-- **A PADDED NUMBER READS BACK.** -/
theorem number_pad {width n : Nat} (rest : List Char) (h : n < 10 ^ width) :
    number width (pad width n ++ rest) = some (n, rest) := by
  rw [number, readDigits_pad width n 0 rest h, Nat.zero_mul, Nat.zero_add]

/-- A digit in front of a padded number. -/
theorem pad_cons {width d n : Nat} (hd : d < 10) (hn : n < 10 ^ width) :
    pad (width + 1) (d * 10 ^ width + n) = digit d :: pad width n := by
  have hpos : 0 < 10 ^ width := by positivity
  have hdiv : (d * 10 ^ width + n) / 10 ^ width = d := by
    rw [Nat.mul_comm, Nat.mul_add_div hpos, Nat.div_eq_of_lt hn, Nat.add_zero]
  have hmod : (d * 10 ^ width + n) % 10 ^ width = n := by
    rw [Nat.mul_comm, Nat.mul_add_mod, Nat.mod_eq_of_lt hn]
  rw [pad, hdiv, hmod, Nat.mod_eq_of_lt hd]

theorem pad_cons_lt {width d n : Nat} (hd : d < 10) (hn : n < 10 ^ width) :
    d * 10 ^ width + n < 10 ^ (width + 1) :=
  calc d * 10 ^ width + n < d * 10 ^ width + 10 ^ width := by omega
    _ = (d + 1) * 10 ^ width := by ring
    _ ≤ 10 * 10 ^ width := Nat.mul_le_mul_right _ (by omega)
    _ = 10 ^ (width + 1) := by ring

theorem digit_of_isDigit {c : Char} (h : c.isDigit = true) :
    c.toNat - 48 < 10 ∧ digit (c.toNat - 48) = c := by
  simp only [Char.isDigit, Bool.and_eq_true, decide_eq_true_eq] at h
  have hlo : 48 ≤ c.toNat := h.1
  have hhi : c.toNat ≤ 57 := h.2
  refine ⟨by omega, ?_⟩
  rw [digit, show 48 + (c.toNat - 48) = c.toNat by omega, Char.ofNat_toNat]

/-- What was read is the padded number in front. -/
theorem readDigits_eq_some {width acc m : Nat} {s rest : List Char}
    (h : readDigits width acc s = some (m, rest)) :
    ∃ n, n < 10 ^ width ∧ m = acc * 10 ^ width + n ∧ s = pad width n ++ rest := by
  induction width generalizing acc s with
  | zero =>
      rw [readDigits] at h
      cases h
      exact ⟨0, by simp, by simp, rfl⟩
  | succ width ih =>
      cases s with
      | nil => cases h
      | cons c s =>
          rw [readDigits] at h
          split at h
          · rename_i hc
            obtain ⟨hten, hdigit⟩ := digit_of_isDigit hc
            obtain ⟨n, hn, rfl, rfl⟩ := ih h
            refine ⟨(c.toNat - 48) * 10 ^ width + n, pad_cons_lt hten hn, by ring, ?_⟩
            rw [pad_cons hten hn, hdigit, List.cons_append]
          · cases h

/-- **A NUMBER THAT READS WAS PADDED.** -/
theorem number_eq_some {width n : Nat} {s rest : List Char}
    (h : number width s = some (n, rest)) : n < 10 ^ width ∧ s = pad width n ++ rest := by
  obtain ⟨m, hm, hn, hs⟩ := readDigits_eq_some h
  rw [Nat.zero_mul, Nat.zero_add] at hn
  subst hn
  exact ⟨hm, hs⟩

theorem length_pad (width n : Nat) : (pad width n).length = width := by
  induction width generalizing n with
  | zero => rfl
  | succ width ih => rw [pad, List.length_cons, ih]

/-- Digits are a padded number. -/
theorem eq_pad {width : Nat} {s : List Char} (hlen : s.length = width)
    (h : ∀ c ∈ s, c.isDigit = true) : ∃ n, n < 10 ^ width ∧ s = pad width n := by
  induction s generalizing width with
  | nil =>
      subst hlen
      exact ⟨0, by simp, rfl⟩
  | cons c s ih =>
      subst hlen
      obtain ⟨n, hn, hs⟩ := ih rfl fun d hd => h d (List.mem_cons_of_mem c hd)
      obtain ⟨hten, hdigit⟩ := digit_of_isDigit (h c List.mem_cons_self)
      exact ⟨_, pad_cons_lt hten hn, by
        rw [List.length_cons, pad_cons hten hn, hdigit, ← hs]⟩

/-- Padded numbers in front of two equal texts are equal. -/
theorem pad_append_inj {width n n' : Nat} {rest rest' : List Char} (h : n < 10 ^ width)
    (h' : n' < 10 ^ width) (heq : pad width n ++ rest = pad width n' ++ rest') :
    n = n' ∧ rest = rest' := by
  have hread := number_pad rest h
  rw [heq, number_pad rest' h'] at hread
  cases hread
  exact ⟨rfl, rfl⟩

theorem pad_inj {width n n' : Nat} (heq : pad width n = pad width n') (h : n < 10 ^ width)
    (h' : n' < 10 ^ width) : n = n' :=
  (pad_append_inj h h' (congrArg (fun text => text ++ []) heq)).1

theorem digit_lt {m n : Nat} (h : m < n) (hn : n < 10) : digit m < digit n := by
  interval_cases n <;> interval_cases m <;> decide

/-- Padded to one width, the smaller number is the smaller text. -/
theorem pad_append_lt {width m n : Nat} {rest rest' : List Char} (h : m < n)
    (hn : n < 10 ^ width) : pad width m ++ rest < pad width n ++ rest' := by
  induction width generalizing m n with
  | zero => omega
  | succ width ih =>
      have hten : n / 10 ^ width < 10 := by
        rw [Nat.div_lt_iff_lt_mul (by positivity)]
        simpa [Nat.pow_succ, Nat.mul_comm] using hn
      have hle : m / 10 ^ width ≤ n / 10 ^ width := Nat.div_le_div_right (le_of_lt h)
      rw [pad, pad, Nat.mod_eq_of_lt hten, Nat.mod_eq_of_lt (lt_of_le_of_lt hle hten),
        List.cons_append, List.cons_append, List.cons_lt_cons_iff]
      rcases lt_or_eq_of_le hle with hlt | heq
      · exact .inl (digit_lt hlt hten)
      · refine .inr ⟨congrArg digit heq, ih ?_ (Nat.mod_lt _ (by positivity))⟩
        have hm := Nat.div_add_mod m (10 ^ width)
        have hn' := Nat.div_add_mod n (10 ^ width)
        rw [heq] at hm
        omega
/-! ## Writing -/

/-- A year: four digits, or a sign and at least four. -/
def yearText (year : Int) : List Char :=
  if 0 ≤ year ∧ year ≤ 9999 then pad 4 year.toNat
  else
    let digits := (Nat.repr year.natAbs).toList
    (if year < 0 then '-' else '+') :: (List.replicate (4 - digits.length) '0' ++ digits)

theorem yearText_append_inj {y y' : Int} {rest rest' : List Char} (h : 0 ≤ y ∧ y ≤ 9999)
    (h' : 0 ≤ y' ∧ y' ≤ 9999) (heq : yearText y ++ rest = yearText y' ++ rest') :
    y = y' ∧ rest = rest' := by
  rw [yearText, if_pos h, yearText, if_pos h'] at heq
  obtain ⟨hy, hrest⟩ := pad_append_inj (show y.toNat < 10 ^ 4 by omega)
    (show y'.toNat < 10 ^ 4 by omega) heq
  exact ⟨by omega, hrest⟩

theorem yearText_inj {y y' : Int} (heq : yearText y = yearText y') (h : 0 ≤ y ∧ y ≤ 9999)
    (h' : 0 ≤ y' ∧ y' ≤ 9999) : y = y' :=
  (yearText_append_inj h h' (congrArg (fun text => text ++ []) heq)).1

/-- The date as `YYYY-MM-DD`. -/
def dateText (d : Date) : List Char :=
  yearText d.year ++ '-' :: (pad 2 d.month.toNat ++ '-' :: pad 2 d.day.toNat)

/-- The time of day as `HH:MM:SS`. -/
def timeText (t : DateTime) : List Char :=
  pad 2 t.hour.toNat ++ ':' :: (pad 2 t.minute.toNat ++ ':' :: pad 2 t.second.toNat)

/-- The instant, in UTC. -/
def text (t : Int) : List Char :=
  dateText (DateTime.ofUnix t).date
    ++ 'T' :: (timeText (DateTime.ofUnix t) ++ "+00:00".toList)

/-! ## Reading -/

/-- One of the characters, and what follows it. -/
def expect (cs : List Char) : List Char → Option (List Char)
  | [] => none
  | c :: s => if c ∈ cs then some s else none

/-- Past a fraction of a second, when there is one. -/
def fraction : List Char → Option (List Char)
  | '.' :: c :: s => if c.isDigit then some (s.dropWhile Char.isDigit) else none
  | ['.'] => none
  | s => some s

/-- `±hh:mm` after its sign, in minutes. -/
def offsetMinutes (s : List Char) : Option (Int × List Char) := do
  let (hours, s) ← number 2 s
  let s ← expect [':'] s
  let (minutes, s) ← number 2 s
  if hours < 24 ∧ minutes < 60 then some ((60 * hours + minutes : Nat), s) else none

/-- The offset from UTC, in seconds. -/
def zone : List Char → Option (Int × List Char)
  | [] => none
  | c :: s =>
      if c = 'Z' ∨ c = 'z' then some (0, s)
      else if c = '+' then (offsetMinutes s).map (fun p => (60 * p.1, p.2))
      else if c = '-' ∨ c = '\u2212' then (offsetMinutes s).map (fun p => (-60 * p.1, p.2))
      else none

/-- The instant a date, a time and an offset name, if they name one.  The
    sixtieth second is the leap second, and counts as the one before it. -/
def instant (d : Date) (hour minute second : Nat) (offset : Int) : Option Int :=
  if Date.ofDays d.toDays = d ∧ hour < 24 ∧ minute < 60 ∧ second ≤ 60 then
    some (DateTime.toUnix ⟨d, hour, minute, min second 59⟩ - offset)
  else none

/-- The instant a text names. -/
def parse (s : List Char) : Option Int := do
  let (year, s) ← number 4 s
  let s ← expect ['-'] s
  let (month, s) ← number 2 s
  let s ← expect ['-'] s
  let (day, s) ← number 2 s
  let s ← expect ['T', 't', ' '] s
  let (hour, s) ← number 2 s
  let s ← expect [':'] s
  let (minute, s) ← number 2 s
  let s ← expect [':'] s
  let (second, s) ← number 2 s
  let s ← fraction s
  let (offset, s) ← zone s
  if s = [] then instant ⟨year, month, day⟩ hour minute second offset else none

/-! ## The round trip -/

/-- The years a text of four digits can name. -/
def FourDigit (t : Int) : Prop :=
  0 ≤ (DateTime.ofUnix t).date.year ∧ (DateTime.ofUnix t).date.year ≤ 9999

instance (t : Int) : Decidable (FourDigit t) := inferInstanceAs (Decidable (_ ∧ _))

/-- The parts of an instant are in their ranges. -/
theorem ofUnix_bounds (t : Int) :
    0 ≤ (DateTime.ofUnix t).hour ∧ (DateTime.ofUnix t).hour < 24
      ∧ 0 ≤ (DateTime.ofUnix t).minute ∧ (DateTime.ofUnix t).minute < 60
      ∧ 0 ≤ (DateTime.ofUnix t).second ∧ (DateTime.ofUnix t).second < 60
      ∧ 1 ≤ (DateTime.ofUnix t).date.month ∧ (DateTime.ofUnix t).date.month ≤ 12
      ∧ 1 ≤ (DateTime.ofUnix t).date.day ∧ (DateTime.ofUnix t).date.day ≤ 31 := by
  have hdate := Date.ofDays_bounds (t / 86400)
  refine ⟨?_, ?_, ?_, ?_, ?_, ?_, hdate⟩ <;> simp only [DateTime.ofUnix] <;> omega

/-- The date and the time of an instant name it. -/
theorem instant_ofUnix {t : Int} (h : FourDigit t) :
    instant ⟨(DateTime.ofUnix t).date.year.toNat, (DateTime.ofUnix t).date.month.toNat,
        (DateTime.ofUnix t).date.day.toNat⟩ (DateTime.ofUnix t).hour.toNat
      (DateTime.ofUnix t).minute.toNat (DateTime.ofUnix t).second.toNat 0 = some t := by
  obtain ⟨hh, hh', hm, hm', hs, hs', hmonth, -, hday, -⟩ := ofUnix_bounds t
  have hvalid : Date.ofDays (DateTime.ofUnix t).date.toDays = (DateTime.ofUnix t).date :=
    congrArg Date.ofDays (Date.toDays_ofDays (t / 86400))
  have hsecond : min ((DateTime.ofUnix t).second.toNat : Int) 59
      = (DateTime.ofUnix t).second := by
    omega
  rw [instant, Int.toNat_of_nonneg h.1, Int.toNat_of_nonneg (by omega),
    Int.toNat_of_nonneg (by omega), if_pos ⟨hvalid, by omega, by omega, by omega⟩, hsecond,
    Int.toNat_of_nonneg hh, Int.toNat_of_nonneg hm, Int.sub_zero]
  exact congrArg some (DateTime.toUnix_ofUnix t)

/-- **A TIMESTAMP OF A FOUR-DIGIT YEAR READS BACK.** -/
theorem parse_text {t : Int} (h : FourDigit t) : parse (text t) = some t := by
  obtain ⟨hh, hh', hm, hm', hs, hs', hmonth, hmonth', hday, hday'⟩ := ofUnix_bounds t
  have hyear : (DateTime.ofUnix t).date.year.toNat < 10 ^ 4 := by
    have := h.2
    omega
  have hmon : (DateTime.ofUnix t).date.month.toNat < 10 ^ 2 := by omega
  have hda : (DateTime.ofUnix t).date.day.toNat < 10 ^ 2 := by omega
  have hho : (DateTime.ofUnix t).hour.toNat < 10 ^ 2 := by omega
  have hmi : (DateTime.ofUnix t).minute.toNat < 10 ^ 2 := by omega
  have hse : (DateTime.ofUnix t).second.toNat < 10 ^ 2 := by omega
  have hzone : fraction "+00:00".toList = some "+00:00".toList := rfl
  have hutc : zone "+00:00".toList = some (0, []) := rfl
  have htext : yearText (DateTime.ofUnix t).date.year
      = pad 4 (DateTime.ofUnix t).date.year.toNat := if_pos h
  simp only [parse, text, dateText, timeText, htext, List.append_assoc,
    List.cons_append, number_pad _ hyear, number_pad _ hmon, number_pad _ hda,
    number_pad _ hho, number_pad _ hmi, number_pad _ hse, Option.bind_eq_bind,
    Option.bind_some, expect, List.mem_cons, true_or, if_true, hzone, hutc]
  exact instant_ofUnix h

end Timestamp
