import Mathlib.Data.Bool.AllAny
import Mathlib.Data.List.Lex
import Mathlib.Data.Set.Finite.List
import Palimpsest.Lib.Decimal

/-!
# Times as ISO texts

A time of day of some date, to the microsecond (`DateTime`), in the order of the times. Its text
with the zone of UTC (`DateTime.isoformat`) is read back as the time
(`DateTime.fromIsoformat_isoformat`), with the zone dropped.
-/

open Json

/-- Whether a year has a 29th of February. -/
def isLeap (year : ℕ) : Bool := year % 4 = 0 && (year % 100 ≠ 0 || year % 400 = 0)

def daysInMonth (year month : ℕ) : ℕ :=
  if month = 2 then if isLeap year then 29 else 28
  else if month = 4 ∨ month = 6 ∨ month = 9 ∨ month = 11 then 30
  else 31

/-- The fields are those of a time there is. -/
def ValidTime (year month day hour minute second microsecond : ℕ) : Prop :=
  (1 ≤ year ∧ year ≤ 9999) ∧ (1 ≤ month ∧ month ≤ 12) ∧ (1 ≤ day ∧ day ≤ daysInMonth year month) ∧
    hour < 24 ∧ minute < 60 ∧ second < 60 ∧ microsecond < 1000000

instance (year month day hour minute second microsecond : ℕ) :
    Decidable (ValidTime year month day hour minute second microsecond) :=
  inferInstanceAs (Decidable (_ ∧ _))

/-- A `datetime` without a zone. -/
@[ext]
structure DateTime where
  year : ℕ
  month : ℕ
  day : ℕ
  hour : ℕ
  minute : ℕ
  second : ℕ
  microsecond : ℕ
  valid : ValidTime year month day hour minute second microsecond
  deriving DecidableEq

namespace DateTime

/-- The fields, from the year on. -/
def fields (d : DateTime) : List ℕ :=
  [d.year, d.month, d.day, d.hour, d.minute, d.second, d.microsecond]

theorem fields_injective : Function.Injective fields := by
  intro d e h
  simp only [fields, List.cons.injEq, and_true] at h
  obtain ⟨hyear, hmonth, hday, hhour, hminute, hsecond, hmicrosecond⟩ := h
  exact DateTime.ext hyear hmonth hday hhour hminute hsecond hmicrosecond

/-- Of two times the earlier one has the smaller field where they first differ. -/
instance : LinearOrder DateTime := LinearOrder.lift' fields fields_injective

/-- There are finitely many times. -/
theorem finite_univ : (Set.univ : Set DateTime).Finite := by
  have hlists : {l : List (Fin 1000000) | l.length ≤ 7}.Finite := List.finite_length_le _ 7
  refine (hlists.image fun l => l.map Fin.val).preimage fields_injective.injOn |>.subset ?_
  intro d _
  obtain ⟨⟨-, hyear⟩, ⟨-, hmonth⟩, ⟨-, hday⟩, hhour, hminute, hsecond, hmicrosecond⟩ := d.valid
  have hdays : daysInMonth d.year d.month ≤ 31 := by
    rw [daysInMonth]
    split_ifs <;> omega
  refine ⟨[⟨d.year, by omega⟩, ⟨d.month, by omega⟩, ⟨d.day, by omega⟩, ⟨d.hour, by omega⟩,
    ⟨d.minute, by omega⟩, ⟨d.second, by omega⟩, ⟨d.microsecond, hmicrosecond⟩], by simp, rfl⟩

/-! ### The text of a time -/

/-- A number in decimal, with zeros in front. -/
def field (width n : ℕ) : Text := (natText n).leftpad width '0'

/-- `value.replace(tzinfo=UTC).isoformat()` -/
def isoformat (d : DateTime) : Text :=
  field 4 d.year ++ '-' :: field 2 d.month ++ '-' :: field 2 d.day ++
    'T' :: field 2 d.hour ++ ':' :: field 2 d.minute ++ ':' :: field 2 d.second ++
    (if d.microsecond = 0 then [] else '.' :: field 6 d.microsecond) ++ "+00:00".toList

/-- A number of so many digits, and what follows it. -/
def takeField (width : ℕ) (t : Text) : Option (ℕ × Text) :=
  if (t.take width).length = width ∧ (t.take width).all Char.isDigit then
    some (Decimal.intValue (t.take width), t.drop width)
  else none

def takeChar (c : Char) : Text → Option Text
  | [] => none
  | d :: t => if d = c then some t else none

/-- Decimals of a second, of which the first six count. -/
def readFraction : Text → Option ℕ
  | [] => some 0
  | c :: t =>
    if (c = '.' ∨ c = ',') ∧ t ≠ [] ∧ t.all Char.isDigit then
      some (Decimal.intValue ((t.take 6).rightpad 6 '0'))
    else none

/-- An hour, with minutes and seconds where they are given. -/
def readClock (t : Text) : Option (ℕ × ℕ × ℕ × ℕ) := do
  let (hour, t) ← takeField 2 t
  if t = [] then return (hour, 0, 0, 0)
  let (minute, t) ← takeField 2 (← takeChar ':' t)
  if t = [] then return (hour, minute, 0, 0)
  let (second, t) ← takeField 2 (← takeChar ':' t)
  return (hour, minute, second, ← readFraction t)

def beginsZone (c : Char) : Bool := c = '+' || c = '-' || c = 'Z'

/-- A zone is an offset of less than a day. -/
def isZone : Text → Bool
  | [] => true
  | 'Z' :: t => t = []
  | _ :: t => (readClock t).any fun p => 3600 * p.1 + 60 * p.2.1 + p.2.2.1 < 86400

/-- `datetime.fromisoformat(text).replace(tzinfo=None)`, of the texts with the date as year, month
and day and with separators in the date and the time. -/
def fromIsoformat (t : Text) : Option DateTime := do
  let (year, t) ← takeField 4 t
  let (month, t) ← takeField 2 (← takeChar '-' t)
  let (day, t) ← takeField 2 (← takeChar '-' t)
  -- a character of any kind is between the date and the time
  let t := t.drop 1
  let (hour, minute, second, microsecond) ←
    if t = [] then some (0, 0, 0, 0) else readClock (t.takeWhile fun c => !beginsZone c)
  if !isZone (t.dropWhile fun c => !beginsZone c) then none
  if h : ValidTime year month day hour minute second microsecond then
    return ⟨year, month, day, hour, minute, second, microsecond, h⟩
  else none

/-! ### A time is read back from its text -/

theorem length_field {width n : ℕ} (hwidth : 0 < width) (h : n < 10 ^ width) :
    (field width n).length = width := by
  have hle := length_natText_le hwidth h
  rw [field, List.leftpad, List.length_append, List.length_replicate]
  omega

theorem isDigit_of_mem_field {width n : ℕ} {c : Char} (h : c ∈ field width n) : c.isDigit := by
  rw [field, List.leftpad, List.mem_append] at h
  rcases h with h | h
  · rw [List.eq_of_mem_replicate h]
    rfl
  · exact Decimal.isDigit_of_mem_natText h

theorem intValue_field (width n : ℕ) : Decimal.intValue (field width n) = n := by
  have hzeros : ∀ k, Decimal.intValue (List.replicate k '0') = 0 := by
    intro k
    induction k with
    | zero => rfl
    | succ k ih => exact ih
  have happend := Decimal.intValue_natText n
  simp only [Decimal.intValue] at happend hzeros ⊢
  rw [field, List.leftpad, List.foldl_append, hzeros, happend]

theorem takeField_append {width n : ℕ} (hwidth : 0 < width) (h : n < 10 ^ width) (t : Text) :
    takeField width (field width n ++ t) = some (n, t) := by
  have hlength := length_field hwidth h
  have htake : (field width n ++ t).take width = field width n := List.take_left' hlength
  have hdrop : (field width n ++ t).drop width = t := List.drop_left' hlength
  have hdigits : (field width n).all Char.isDigit := List.all_eq_true.mpr fun _ =>
    isDigit_of_mem_field
  rw [takeField, htake, hdrop, if_pos ⟨hlength, hdigits⟩, intValue_field]

theorem takeField_two {n : ℕ} (h : n < 60) (t : Text) :
    takeField 2 (field 2 n ++ t) = some (n, t) :=
  takeField_append (by decide) (by omega) t

@[simp]
theorem takeChar_cons (c : Char) (t : Text) : takeChar c (c :: t) = some t := if_pos rfl

/-- The decimals of a second, which are not written where they are zero. -/
def fraction (microsecond : ℕ) : Text :=
  if microsecond = 0 then [] else '.' :: field 6 microsecond

theorem readFraction_fraction {n : ℕ} (h : n < 1000000) : readFraction (fraction n) = some n := by
  rw [fraction]
  split_ifs with hn
  · rw [hn]
    rfl
  · have hlength : (field 6 n).length = 6 := length_field (by decide) h
    have hne : field 6 n ≠ [] := fun h => by
      rw [h] at hlength
      cases hlength
    have hdigits : (field 6 n).all Char.isDigit := List.all_eq_true.mpr fun _ =>
      isDigit_of_mem_field
    have htake : (field 6 n).take 6 = field 6 n := List.take_of_length_le hlength.le
    rw [readFraction, if_pos ⟨Or.inl rfl, hne, hdigits⟩, htake, List.rightpad, hlength,
      Nat.sub_self, List.replicate_zero, List.append_nil, intValue_field]

/-- The hour, the minute and the second. -/
def clock (d : DateTime) : Text :=
  field 2 d.hour ++ ':' :: (field 2 d.minute ++ ':' :: (field 2 d.second ++ fraction d.microsecond))

theorem isoformat_eq (d : DateTime) : d.isoformat =
    field 4 d.year ++ '-' :: (field 2 d.month ++ '-' :: (field 2 d.day ++
      'T' :: (d.clock ++ "+00:00".toList))) := by
  simp [isoformat, clock, fraction]

theorem readClock_clock (d : DateTime) :
    readClock d.clock = some (d.hour, d.minute, d.second, d.microsecond) := by
  obtain ⟨-, -, -, hhour, hminute, hsecond, hmicrosecond⟩ := d.valid
  simp [readClock, clock, takeField_two (show d.hour < 60 by omega), takeField_two hminute,
    takeField_two hsecond, readFraction_fraction hmicrosecond]

/-- No zone begins in the time itself. -/
theorem not_beginsZone_of_mem_clock {d : DateTime} {c : Char} (h : c ∈ d.clock) :
    (!beginsZone c) = true := by
  have hdigit : ∀ c : Char, c.isDigit → (!beginsZone c) = true := by
    intro c hc
    have hne : c ≠ '+' ∧ c ≠ '-' ∧ c ≠ 'Z' := by
      refine ⟨?_, ?_, ?_⟩ <;>
      · rintro rfl
        cases hc
    simp [beginsZone, hne]
  simp only [clock, fraction, List.mem_append, List.mem_cons] at h
  rcases h with h | rfl | h | rfl | h | h
  · exact hdigit c (isDigit_of_mem_field h)
  · rfl
  · exact hdigit c (isDigit_of_mem_field h)
  · rfl
  · exact hdigit c (isDigit_of_mem_field h)
  · split_ifs at h with hzero
    · cases h
    · rcases List.mem_cons.mp h with rfl | h
      · rfl
      · exact hdigit c (isDigit_of_mem_field h)

/-- What a text of a time is made of. -/
theorem mem_isoformat {d : DateTime} {c : Char} (h : c ∈ d.isoformat) :
    c.isDigit ∨ c ∈ "-T:.+".toList := by
  simp only [isoformat_eq, clock, fraction, List.mem_append, List.mem_cons] at h
  rcases h with h | rfl | h | rfl | h | rfl | (h | rfl | h | rfl | h | h) | h
  · exact Or.inl (isDigit_of_mem_field h)
  · decide
  · exact Or.inl (isDigit_of_mem_field h)
  · decide
  · exact Or.inl (isDigit_of_mem_field h)
  · decide
  · exact Or.inl (isDigit_of_mem_field h)
  · decide
  · exact Or.inl (isDigit_of_mem_field h)
  · decide
  · exact Or.inl (isDigit_of_mem_field h)
  · split_ifs at h with hzero
    · cases h
    · rcases List.mem_cons.mp h with rfl | h
      · decide
      · exact Or.inl (isDigit_of_mem_field h)
  · have hzone : ∀ c ∈ "+00:00".toList, c.isDigit ∨ c ∈ "-T:.+".toList := by
      rw [← List.all_iff_forall_prop]
      decide
    exact hzone c h

theorem length_isoformat (d : DateTime) : d.isoformat.length ≤ 32 := by
  obtain ⟨⟨-, hyear⟩, ⟨-, hmonth⟩, ⟨-, hday⟩, hhour, hminute, hsecond, hmicrosecond⟩ := d.valid
  have hdays : daysInMonth d.year d.month ≤ 31 := by
    rw [daysInMonth]
    split_ifs <;> omega
  have htwo : ∀ n < 60, (field 2 n).length = 2 := fun n hn =>
    length_field (by decide) (by omega)
  have hfraction : (fraction d.microsecond).length ≤ 7 := by
    rw [fraction]
    split_ifs with hzero
    · exact Nat.zero_le 7
    · rw [List.length_cons, length_field (by decide) hmicrosecond]
  simp only [isoformat_eq, clock, List.length_append, List.length_cons,
    length_field (by decide) (show d.year < 10 ^ 4 by omega),
    htwo d.month (by omega), htwo d.day (by omega), htwo d.hour (by omega), htwo d.minute hminute,
    htwo d.second hsecond]
  have hzone : "+00:00".toList.length = 6 := rfl
  omega

/-- **A time is read back from its text.** -/
theorem fromIsoformat_isoformat (d : DateTime) : fromIsoformat d.isoformat = some d := by
  obtain ⟨⟨-, hyear⟩, ⟨-, hmonth⟩, ⟨-, hday⟩, -⟩ := d.valid
  have hdays : daysInMonth d.year d.month ≤ 31 := by
    rw [daysInMonth]
    split_ifs <;> omega
  have htake : (d.clock ++ "+00:00".toList).takeWhile (fun c => !beginsZone c) = d.clock := by
    rw [List.takeWhile_append_of_pos fun _ => not_beginsZone_of_mem_clock]
    exact List.append_nil _
  have hdrop : (d.clock ++ "+00:00".toList).dropWhile (fun c => !beginsZone c) =
      "+00:00".toList := by
    rw [List.dropWhile_append_of_pos fun _ => not_beginsZone_of_mem_clock]
    rfl
  have hne : d.clock ++ "+00:00".toList ≠ [] := by simp
  have hzone : isZone "+00:00".toList = true := by decide
  rw [isoformat_eq, fromIsoformat]
  simp only [takeField_append (by decide) (show d.year < 10 ^ 4 by omega), takeChar_cons,
    takeField_two (show d.month < 60 by omega), takeField_two (show d.day < 60 by omega),
    Option.bind_eq_bind, Option.bind_some, List.drop_succ_cons, List.drop_zero, if_neg hne, htake,
    hdrop, readClock_clock, hzone, dif_pos d.valid]
  rfl

end DateTime
