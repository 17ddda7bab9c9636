/-
  ParaTos/Date.lean
  =================
  **Dates and times of files** (`gemdos/date.c` and `Fdatime` in `gemdos/file.c`).

  A DOS stamp has 16 bits for the date and 16 for the time, in steps of two seconds.
  The local time is that of a zone with a fixed offset, where `localtime_r` and `mktime`
  are what the calendar makes of it.

  `unixtime2dos` packs half the seconds into four bits, which is one too few;
  `stamps_iff` says what is left of the round trips and of the order of the stamps.
-/
import ParaTos.Calendar
import ParaTos.FileSearch

namespace ParaTos.Date

open Bytes Memory Calendar FileSearch

/-! ### The host's time zone -/

/-- `localtime_r`, in a zone that is `offset` seconds east; it fails where the year does not
    fit into `tm_year`. -/
def localtimeR (offset : Int32) (unixtime : Int64) : Option Tm :=
  let s := unixtime.toInt + offset.toInt
  let d := dateOf (s / 86400)
  let year := d.year - 1900
  if -2 ^ 31 ≤ year ∧ year < 2 ^ 31 then
    some {
      sec := Int32.ofInt (s % 60)
      min := Int32.ofInt (s / 60 % 60)
      hour := Int32.ofInt (s / 3600 % 24)
      mday := Int32.ofInt d.day
      mon := Int32.ofInt d.month
      year := Int32.ofInt year }
  else none

/-- `mktime`, which takes fields out of their range for what they amount to.  Without
    summer time it makes nothing of `tm_isdst`. -/
def mktime (offset : Int32) (t : Tm) : Int64 :=
  let months := t.year.toInt * 12 + t.mon.toInt
  let year := 1900 + months / 12
  let day := yearStart year + monthStart (isLeap year) (months % 12).toNat + t.mday.toInt - 1
  Int64.ofInt (day * 86400 + t.hour.toInt * 3600 + t.min.toInt * 60 + t.sec.toInt - offset.toInt)

/-! ### The two conversions -/

/-- What `unixtime2dos` returns for the fields of a local time. -/
def dosStamp (t : Tm) : UInt32 :=
  let datePart : UInt32 := t.mday.toUInt32 ||| ((t.mon + 1).toUInt32 <<< 5) |||
    (((t.year - 80) &&& 0x7f).toUInt32 <<< 9)
  let timePart : UInt32 := ((t.sec / 2) &&& 0xf).toUInt32 ||| (t.min.toUInt32 <<< 5) |||
    (t.hour.toUInt32 <<< 11)
  datePart ||| (timePart <<< 16)

/-- `unixtime2dos(&unixtime)`, which is 0 where `localtime_r` fails. -/
def unixtime2dos (offset : Int32) (unixtime : Int64) : UInt32 :=
  (localtimeR offset unixtime).elim 0 dosStamp

/-- The fields that `dostime2unix` hands to `mktime`. -/
def dosFields (dostime : UInt32) : Tm :=
  let timestamp : UInt16 := (dostime >>> 16).toUInt16
  let datestamp : UInt16 := (dostime &&& 0xffff).toUInt16
  { sec := (timestamp &&& 0x1f).toUInt32.toInt32 * 2
    min := ((timestamp >>> 5) &&& 0x3f).toUInt32.toInt32
    hour := ((timestamp >>> 11) &&& 0x1f).toUInt32.toInt32
    mday := (datestamp &&& 0x1f).toUInt32.toInt32
    mon := ((datestamp >>> 5) &&& 0xf).toUInt32.toInt32 - 1
    year := (80 : Int32) + ((datestamp >>> 9) &&& 0x7f).toUInt32.toInt32 }

/-- `dostime2unix(dostime)` -/
def dostime2unix (offset : Int32) (dostime : UInt32) : Int64 := mktime offset (dosFields dostime)

/-! ### Fdatime -/

/-- `st_atime` and `st_mtime` -/
structure FileTimes where
  atime : Int64
  mtime : Int64

/-- The emulated memory, and the times of the open files. -/
structure State where
  memory : Memory
  files : Int16 → Option FileTimes

/-- `futimes`, which does nothing to a descriptor that is not open. -/
def futimes (handle : Int16) (times : FileTimes) (s : State) : State :=
  match s.files handle with
  | none => s
  | some _ => { s with files := Function.update s.files handle (some times) }

/-- `Fdatime(timeptr, handle, wflag)` -/
def fdatime (offset : Int32) (timeptr : UInt32) (handle wflag : Int16) (s : State) :
    Run State := do
  if wflag = 0 then
    match s.files handle with
    | none => return s
    | some times =>
      let memory ← writeMemory32 timeptr (unixtime2dos offset times.mtime) s.memory
      return { s with memory }
  else
    let dostime ← readMemory32 timeptr s.memory
    let tv := dostime2unix offset dostime
    return futimes handle ⟨tv, tv⟩ s

/-! ### The fields of a stamp -/

/-- The fields of a stamp, as far as they are looked at. -/
def dosSec (d : UInt32) : Nat := d.toNat / 2 ^ 16 % 32
def dosMin (d : UInt32) : Nat := d.toNat / 2 ^ 21 % 64
def dosHour (d : UInt32) : Nat := d.toNat / 2 ^ 27
def dosDay (d : UInt32) : Nat := d.toNat % 32
def dosMonth (d : UInt32) : Nat := d.toNat / 2 ^ 5 % 16
def dosYear (d : UInt32) : Nat := d.toNat / 2 ^ 9 % 128

/-- The date of a stamp. -/
def dosDateOf (d : UInt32) : Calendar.Date := ⟨1980 + dosYear d, dosMonth d - 1, dosDay d⟩

/-- A time of day and a date that there is. -/
structure ValidStamp (d : UInt32) : Prop where
  sec : dosSec d < 30
  min : dosMin d < 60
  hour : dosHour d < 24
  month : 1 ≤ dosMonth d
  date : (dosDateOf d).Valid

/-- The number that has these fields. -/
def packed (year month day hour min sec : Nat) : Nat :=
  day + 2 ^ 5 * month + 2 ^ 9 * year + 2 ^ 16 * (sec + 2 ^ 5 * min + 2 ^ 11 * hour)

theorem packed_fields (d : UInt32) :
    packed (dosYear d) (dosMonth d) (dosDay d) (dosHour d) (dosMin d) (dosSec d) = d.toNat := by
  simp only [packed, dosYear, dosMonth, dosDay, dosHour, dosMin, dosSec]
  omega

theorem packed_inj {year month day hour min sec : Nat} {d : UInt32} (hyear : year < 128)
    (hmonth : month < 16) (hday : day < 32) (hmin : min < 64) (hsec : sec < 32)
    (h : d.toNat = packed year month day hour min sec) :
    dosYear d = year ∧ dosMonth d = month ∧ dosDay d = day ∧ dosHour d = hour ∧
      dosMin d = min ∧ dosSec d = sec := by
  simp only [dosYear, dosMonth, dosDay, dosHour, dosMin, dosSec, h, packed]
  omega

/-! ### Bits -/

section Bits

/-- Bit fields side by side add up. -/
theorem toNat_or_shift {a b k : UInt32} {n : Nat} (hk : k.toNat = n) (hn : n < 32)
    (ha : a.toNat < 2 ^ n) (hfit : b.toNat * 2 ^ n < 2 ^ 32) :
    (a ||| b <<< k).toNat = a.toNat + 2 ^ n * b.toNat := by
  rw [UInt32.toNat_or, UInt32.toNat_shiftLeft, hk, Nat.mod_eq_of_lt hn, Nat.shiftLeft_eq,
    Nat.mod_eq_of_lt hfit, Nat.or_comm, Nat.mul_comm, ← Nat.two_pow_add_eq_or_of_lt ha,
    Nat.add_comm]

/-- The low bits of a halfword, as an `int`. -/
theorem toInt_low (v : UInt16) {mask : UInt16} {i : Nat} (hi : i < 16)
    (hmask : mask.toNat = 2 ^ i - 1) :
    (v &&& mask).toUInt32.toInt32.toInt = (v.toNat % 2 ^ i : Nat) := by
  have hnat : (v &&& mask).toNat = v.toNat % 2 ^ i := by
    rw [UInt16.toNat_and, hmask, Nat.and_two_pow_sub_one_eq_mod]
  have hlt : v.toNat % 2 ^ i < 2 ^ 15 :=
    Nat.lt_of_lt_of_le (Nat.mod_lt _ (Nat.two_pow_pos i))
      (Nat.pow_le_pow_right (by decide) (Nat.le_of_lt_succ hi))
  have hbits : (v &&& mask).toUInt32.toInt32.toInt = (v &&& mask).toUInt32.toBitVec.toInt := rfl
  rw [hbits, BitVec.toInt_eq_toNat_of_lt] <;>
    rw [UInt32.toNat_toBitVec, UInt16.toNat_toUInt32, hnat]
  omega

/-- A field in the middle. -/
theorem toInt_field (v : UInt16) {k mask : UInt16} {n i : Nat} (hk : k.toNat = n) (hn : n < 16)
    (hi : i < 16) (hmask : mask.toNat = 2 ^ i - 1) :
    ((v >>> k) &&& mask).toUInt32.toInt32.toInt = (v.toNat / 2 ^ n % 2 ^ i : Nat) := by
  rw [toInt_low _ hi hmask, UInt16.toNat_shiftRight, hk, Nat.mod_eq_of_lt hn,
    Nat.shiftRight_eq_div_pow]

theorem toNat_timestamp (d : UInt32) : (d >>> 16).toUInt16.toNat = d.toNat / 2 ^ 16 := by
  have hlt := d.toNat_lt
  have h16 : (16 : UInt32).toNat % 32 = 16 := rfl
  rw [UInt32.toNat_toUInt16, UInt32.toNat_shiftRight, h16, Nat.shiftRight_eq_div_pow]
  omega

theorem toNat_datestamp (d : UInt32) : (d &&& 0xffff).toUInt16.toNat = d.toNat % 2 ^ 16 := by
  have hmask : (0xffff : UInt32).toNat = 2 ^ 16 - 1 := rfl
  rw [UInt32.toNat_toUInt16, UInt32.toNat_and, hmask, Nat.and_two_pow_sub_one_eq_mod, Nat.mod_mod]

end Bits

/-! ### From a stamp to the time -/

section ToTime

variable (offset : Int32) (d : UInt32)

/-- The fields that `mktime` gets. -/
theorem dosFields_toInt :
    (dosFields d).sec.toInt = 2 * dosSec d ∧ (dosFields d).min.toInt = dosMin d ∧
      (dosFields d).hour.toInt = dosHour d ∧ (dosFields d).mday.toInt = dosDay d ∧
      (dosFields d).mon.toInt = dosMonth d - 1 ∧ (dosFields d).year.toInt = 80 + dosYear d := by
  have hlt := d.toNat_lt
  have htime := toNat_timestamp d
  have hdate := toNat_datestamp d
  simp only [dosFields, dosSec, dosMin, dosHour, dosDay, dosMonth, dosYear]
  generalize (d >>> 16).toUInt16 = time at htime
  generalize (d &&& 0xffff).toUInt16 = date at hdate
  have hsec := @toInt_low time 0x1f 5 (by decide) rfl
  have hmin := @toInt_field time 5 0x3f 5 6 rfl (by decide) (by decide) rfl
  have hhour := @toInt_field time 11 0x1f 11 5 rfl (by decide) (by decide) rfl
  have hday := @toInt_low date 0x1f 5 (by decide) rfl
  have hmonth := @toInt_field date 5 0xf 5 4 rfl (by decide) (by decide) rfl
  have hyear := @toInt_field date 9 0x7f 9 7 rfl (by decide) (by decide) rfl
  have h2 : (2 : Int32).toInt = 2 := rfl
  have h1 : (1 : Int32).toInt = 1 := rfl
  have h80 : (80 : Int32).toInt = 80 := rfl
  rw [htime] at hsec hmin hhour
  rw [hdate] at hday hmonth hyear
  rw [Int32.toInt_mul, Int32.toInt_sub, Int32.toInt_add, hsec, hmin, hhour, hday, hmonth, hyear,
    h2, h1, h80]
  refine ⟨?_, ?_, ?_, ?_, ?_, ?_⟩
  · rw [Int.bmod_eq_of_le] <;> omega
  · omega
  · omega
  · omega
  · rw [Int.bmod_eq_of_le] <;> omega
  · rw [Int.bmod_eq_of_le] <;> omega

/-- The seconds of a stamp, counted in local time. -/
def stampSeconds : Int :=
  (dosDateOf d).number * 86400 + dosHour d * 3600 + dosMin d * 60 + 2 * dosSec d

theorem dostime2unix_eq {d : UInt32} (hmonth : 1 ≤ dosMonth d ∧ dosMonth d ≤ 12) :
    dostime2unix offset d = Int64.ofInt (stampSeconds d - offset.toInt) := by
  obtain ⟨hsec, hmin, hhour, hmday, hmon, hyear⟩ := dosFields_toInt d
  have hdiv : (1900 : Int) + ((80 + dosYear d) * 12 + (dosMonth d - 1)) / 12 = 1980 + dosYear d := by
    omega
  have hmod : (((80 + (dosYear d : Int)) * 12 + (dosMonth d - 1)) % 12).toNat = dosMonth d - 1 := by
    omega
  rw [dostime2unix, mktime]
  simp only [hsec, hmin, hhour, hmday, hmon, hyear, hdiv, hmod]
  rw [stampSeconds, Date.number, dosDateOf]

end ToTime

/-! ### From the time to a stamp -/

/-- The seconds since 1970 in local time. -/
def localSeconds (offset : Int32) (t : Int64) : Int := t.toInt + offset.toInt

/-- From 1980 to the end of 2107. -/
def InRange (offset : Int32) (t : Int64) : Prop :=
  yearStart 1980 * 86400 ≤ localSeconds offset t ∧
    localSeconds offset t < yearStart 2108 * 86400

instance (offset : Int32) (t : Int64) : Decidable (InRange offset t) :=
  inferInstanceAs (Decidable (_ ∧ _))

section ToStamp

/-- The number that the fields are packed into. -/
def stampOf (s : Int) : Nat :=
  packed ((dateOf (s / 86400)).year - 1980).toNat ((dateOf (s / 86400)).month + 1)
    (dateOf (s / 86400)).day (s / 3600 % 24).toNat (s / 60 % 60).toNat ((s % 60).toNat / 2 % 16)

theorem dateOf_fields {s : Int} (hlo : yearStart 1980 * 86400 ≤ s)
    (hhi : s < yearStart 2108 * 86400) :
    1980 ≤ (dateOf (s / 86400)).year ∧ (dateOf (s / 86400)).year < 2108 ∧
      (dateOf (s / 86400)).month < 12 ∧ (dateOf (s / 86400)).day < 32 := by
  have hyear := @dateOf_year (s / 86400) 1980 2108 (by omega) (by omega)
  have hvalid := dateOf_valid (s / 86400)
  have hday := Nat.le_trans hvalid.day (monthLength_le _ hvalid.month)
  exact ⟨hyear.1, hyear.2, hvalid.month, Nat.lt_succ_of_le hday⟩

/-- The three fields of the time. -/
theorem timePart_toNat {sec min hour : Nat} (hsec : sec < 60) (hmin : min < 60)
    (hhour : hour < 24) :
    (((Int32.ofInt sec / 2) &&& 0xf).toUInt32 ||| ((Int32.ofInt min).toUInt32 <<< 5) |||
      ((Int32.ofInt hour).toUInt32 <<< 11)).toNat =
        sec / 2 % 16 + 2 ^ 5 * min + 2 ^ 11 * hour := by
  have hs : ((Int32.ofInt sec / 2) &&& 0xf).toUInt32.toNat = sec / 2 % 16 := by
    decide +revert
  have hm : (Int32.ofInt min).toUInt32.toNat = min := by
    clear hs
    decide +revert
  have hh : (Int32.ofInt hour).toUInt32.toNat = hour := by
    clear hs hm
    decide +revert
  have hfirst := @toNat_or_shift ((Int32.ofInt sec / 2) &&& 0xf).toUInt32
    (Int32.ofInt min).toUInt32 5 5 rfl (by decide) (by omega) (by omega)
  rw [toNat_or_shift (n := 11) rfl (by decide) (by rw [hfirst]; omega) (by omega), hfirst, hs,
    hm, hh]

/-- The three fields of the date. -/
theorem datePart_toNat {day month year : Nat} (hday : day < 32) (hmonth : month < 12)
    (hyear : year < 128) :
    ((Int32.ofInt day).toUInt32 ||| ((Int32.ofInt month + 1).toUInt32 <<< 5) |||
      (((Int32.ofInt (80 + year) - 80) &&& 0x7f).toUInt32 <<< 9)).toNat =
        day + 2 ^ 5 * (month + 1) + 2 ^ 9 * year := by
  have hd : (Int32.ofInt day).toUInt32.toNat = day := by
    decide +revert
  have hm : (Int32.ofInt month + 1).toUInt32.toNat = month + 1 := by
    clear hd
    decide +revert
  have hy : ((Int32.ofInt (80 + year) - 80) &&& 0x7f).toUInt32.toNat = year := by
    clear hd hm
    decide +revert
  have hfirst := @toNat_or_shift (Int32.ofInt day).toUInt32 (Int32.ofInt month + 1).toUInt32 5 5
    rfl (by decide) (by omega) (by omega)
  rw [toNat_or_shift (n := 9) rfl (by decide) (by rw [hfirst]; omega) (by omega), hfirst, hd, hm,
    hy]

/-- What `localtime_r` sets, in years that fit. -/
theorem localtimeR_some {offset : Int32} {t : Int64} {sec min hour year : Nat}
    {d : Calendar.Date} (hd : dateOf (localSeconds offset t / 86400) = d)
    (hsec : localSeconds offset t % 60 = sec) (hmin : localSeconds offset t / 60 % 60 = min)
    (hhour : localSeconds offset t / 3600 % 24 = hour) (hyear : d.year - 1900 = 80 + year)
    (hlt : year < 128) :
    localtimeR offset t = some {
      sec := Int32.ofInt sec
      min := Int32.ofInt min
      hour := Int32.ofInt hour
      mday := Int32.ofInt d.day
      mon := Int32.ofInt d.month
      year := Int32.ofInt (80 + year) } := by
  have hs : t.toInt + offset.toInt = localSeconds offset t := rfl
  simp only [localtimeR, hs, hd, hsec, hmin, hhour, hyear]
  exact if_pos (by omega)

/-- **What `unixtime2dos` computes.** -/
theorem unixtime2dos_toNat {offset : Int32} {t : Int64} (ht : InRange offset t) :
    (unixtime2dos offset t).toNat = stampOf (localSeconds offset t) := by
  obtain ⟨hyear, hyear', hmonth, hday⟩ := dateOf_fields ht.1 ht.2
  -- the fields as natural numbers
  obtain ⟨sec, hsec⟩ : ∃ n : Nat, localSeconds offset t % 60 = n :=
    Int.eq_ofNat_of_zero_le (by omega)
  obtain ⟨min, hmin⟩ : ∃ n : Nat, localSeconds offset t / 60 % 60 = n :=
    Int.eq_ofNat_of_zero_le (by omega)
  obtain ⟨hour, hhour⟩ : ∃ n : Nat, localSeconds offset t / 3600 % 24 = n :=
    Int.eq_ofNat_of_zero_le (by omega)
  obtain ⟨year, hyearEq⟩ : ∃ n : Nat, (dateOf (localSeconds offset t / 86400)).year - 1980 = n :=
    Int.eq_ofNat_of_zero_le (by omega)
  have hlocal := @localtimeR_some offset t sec min hour year _ rfl hsec hmin hhour (by omega)
    (by omega)
  have hsecs := @timePart_toNat sec min hour (by omega) (by omega) (by omega)
  have hdays := @datePart_toNat _ _ year hday hmonth (by omega)
  rw [unixtime2dos, hlocal, Option.elim_some, stampOf, hsec, hmin, hhour, hyearEq]
  simp only [dosStamp, Int.toNat_natCast]
  rw [toNat_or_shift (n := 16) rfl (by decide) (by rw [hdays]; omega) (by rw [hsecs]; omega), hdays,
    hsecs, packed]

end ToStamp

/-! ### There and back -/

/-- A time rounded down to an even number of seconds, in local time. -/
def evenDown (offset : Int32) (t : Int64) : Int64 :=
  Int64.ofInt (t.toInt - localSeconds offset t % 2)

/-- The stamp was set, and this is what `Fdatime` then returns. -/
def setThenGet (offset : Int32) (timeptr timeptr' : UInt32) (handle wflag : Int16) (s : State) :
    Run UInt32 := do
  let s ← fdatime offset timeptr handle wflag s
  let s ← fdatime offset timeptr' handle 0 s
  readMemory32 timeptr' s.memory

/-- The stamp `d` can be set for an open file, and read back to another place. -/
structure Settable (timeptr timeptr' : UInt32) (handle wflag : Int16) (s : State) (d : UInt32) :
    Prop where
  valid : ValidStamp d
  set : wflag ≠ 0
  isOpen : s.files handle ≠ none
  read : readMemory32 timeptr s.memory = Except.ok d
  mapped : ∀ i < 4, Mapped (timeptr'.toNat + i)

/-- Stamps compared as dates and times. -/
def StampLe (d d' : UInt32) : Prop :=
  d.toNat % 2 ^ 16 < d'.toNat % 2 ^ 16 ∨
    d.toNat % 2 ^ 16 = d'.toNat % 2 ^ 16 ∧ d.toNat / 2 ^ 16 ≤ d'.toNat / 2 ^ 16

/-- The later time is behind second 32 of the same minute, and the earlier one is further
    from the start of the minute than the later one is from there. -/
def SlipsBack (offset : Int32) (t t' : Int64) : Prop :=
  localSeconds offset t / 60 = localSeconds offset t' / 60 ∧ localSeconds offset t % 60 < 32 ∧
    32 ≤ localSeconds offset t' % 60 ∧
    (localSeconds offset t' % 60 - 32) / 2 < localSeconds offset t % 60 / 2

section RoundTrips

variable {offset : Int32}

/-- Where the offset is even, so are the times that are even in local time. -/
theorem evenDown_eq (heven : offset.toInt % 2 = 0) (t : Int64) :
    evenDown offset t = Int64.ofInt (t.toInt - t.toInt % 2) := by
  have hmod : localSeconds offset t % 2 = t.toInt % 2 := by
    rw [localSeconds]
    omega
  rw [evenDown, hmod]

theorem yearStart_1980 : yearStart 1980 = 3652 := by decide

theorem yearStart_2108 : yearStart 2108 = 50403 := by decide

/-- The fields of a time add up. -/
theorem clock_sum (s : Int) :
    s / 86400 * 86400 + s / 3600 % 24 * 3600 + s / 60 % 60 * 60 + s % 60 = s := by
  have hhours : s / 3600 = s / 60 / 60 := by omega
  have hdays : s / 86400 = s / 3600 / 24 := by omega
  rw [hdays, hhours]
  omega

/-- Times that fit are told apart. -/
theorem ofInt_inj {n k : Int} (hn : -2 ^ 63 ≤ n) (hn' : n < 2 ^ 63) (hk : -2 ^ 63 ≤ k)
    (hk' : k < 2 ^ 63) : Int64.ofInt n = Int64.ofInt k ↔ n = k := by
  rw [← Int64.toInt_inj, Int64.toInt_ofInt_of_le hn hn', Int64.toInt_ofInt_of_le hk hk']

/-- What the stamp of a time stands for: the upper half of a minute is taken for the lower. -/
theorem stampSeconds_unixtime2dos {t : Int64} (ht : InRange offset t) :
    dosMonth (unixtime2dos offset t) ≤ 12 ∧ 1 ≤ dosMonth (unixtime2dos offset t) ∧
      stampSeconds (unixtime2dos offset t) = localSeconds offset t -
        localSeconds offset t % 60 + 2 * (localSeconds offset t % 60 / 2 % 16) := by
  obtain ⟨hyear, hyear', hmonth, hday⟩ := dateOf_fields ht.1 ht.2
  have hstamp := unixtime2dos_toNat ht
  generalize localSeconds offset t = s at *
  have hnumber := number_dateOf (s / 86400)
  rw [stampOf] at hstamp
  generalize dateOf (s / 86400) = date at *
  obtain ⟨hy, hm, hd, hh, hmin, hsec⟩ := packed_inj (by omega) (by omega) hday (by omega)
    (by omega) hstamp
  have hdate : dosDateOf (unixtime2dos offset t) = date := by
    have hback : (1980 : Int) + (date.year - 1980).toNat = date.year := by omega
    rw [dosDateOf, hy, hm, hd, hback, Nat.add_sub_cancel]
  have hclock := clock_sum s
  refine ⟨by omega, by omega, ?_⟩
  rw [stampSeconds, hdate, hnumber, hh, hmin, hsec]
  omega

theorem time_round_trip {t : Int64} (ht : InRange offset t) :
    dostime2unix offset (unixtime2dos offset t) = evenDown offset t ↔
      localSeconds offset t % 60 < 32 := by
  obtain ⟨hle, hpos, hseconds⟩ := stampSeconds_unixtime2dos ht
  obtain ⟨hlo, hhi⟩ := ht
  rw [yearStart_1980] at hlo
  rw [yearStart_2108] at hhi
  have hoff := offset.toInt_lt
  have hoff' := offset.le_toInt
  have ht : t.toInt = localSeconds offset t - offset.toInt := by
    rw [localSeconds]
    omega
  rw [dostime2unix_eq offset ⟨hpos, hle⟩, hseconds, evenDown, ht]
  generalize localSeconds offset t = s at *
  rw [ofInt_inj (by omega) (by omega) (by omega) (by omega)]
  omega

/-- The local time of a stamp. -/
theorem localSeconds_dostime2unix {d : UInt32} (hd : ValidStamp d) :
    localSeconds offset (dostime2unix offset d) = stampSeconds d ∧
      InRange offset (dostime2unix offset d) := by
  obtain ⟨hsec, hmin, hhour, hmonth, hdate⟩ := hd
  have hmonth' : dosMonth d ≤ 12 := by
    have hlt := hdate.month
    simp only [dosDateOf] at hlt
    omega
  obtain ⟨hlo, hhi⟩ := hdate.inYear
  have hyear : dosYear d < 128 := Nat.mod_lt _ (by decide)
  have hfirst := @yearStart_le 1980 (dosDateOf d).year (by simp only [dosDateOf]; omega)
  have hlast := @yearStart_le ((dosDateOf d).year + 1) 2108 (by simp only [dosDateOf]; omega)
  have hoff := offset.toInt_lt
  have hoff' := offset.le_toInt
  have hs : stampSeconds d = (dosDateOf d).number * 86400 + dosHour d * 3600 + dosMin d * 60 +
    2 * dosSec d := rfl
  have h1980 := yearStart_1980
  have h2108 := yearStart_2108
  have hlocal : localSeconds offset (dostime2unix offset d) = stampSeconds d := by
    rw [localSeconds, dostime2unix_eq offset ⟨hmonth, hmonth'⟩,
      Int64.toInt_ofInt_of_le (by omega) (by omega)]
    omega
  refine ⟨hlocal, ?_⟩
  rw [InRange, hlocal]
  omega

theorem stamp_round_trip {d : UInt32} (hd : ValidStamp d) :
    unixtime2dos offset (dostime2unix offset d) = d ↔ dosSec d < 16 := by
  obtain ⟨hlocal, hrange⟩ := @localSeconds_dostime2unix offset d hd
  obtain ⟨hsec, hmin, hhour, hmonth, hdate⟩ := hd
  have hs : stampSeconds d = (dosDateOf d).number * 86400 + dosHour d * 3600 + dosMin d * 60 +
    2 * dosSec d := rfl
  have hday : stampSeconds d / 86400 = (dosDateOf d).number := by omega
  have hstamp := unixtime2dos_toNat hrange
  have hfields := packed_fields d
  rw [hlocal, stampOf, hday, dateOf_number hdate] at hstamp
  have hyearNat : ((dosDateOf d).year - 1980).toNat = dosYear d := by
    simp only [dosDateOf]
    omega
  have hmonthNat : (dosDateOf d).month + 1 = dosMonth d := Nat.sub_add_cancel hmonth
  have hdayNat : (dosDateOf d).day = dosDay d := rfl
  have hhourNat : (stampSeconds d / 3600 % 24).toNat = dosHour d := by omega
  have hminNat : (stampSeconds d / 60 % 60).toNat = dosMin d := by omega
  have hsecNat : (stampSeconds d % 60).toNat / 2 = dosSec d := by omega
  rw [hyearNat, hmonthNat, hdayNat, hhourNat, hminNat, hsecNat] at hstamp
  rw [← UInt32.toNat_inj, hstamp, ← hfields, packed, packed]
  omega

theorem set_then_get {timeptr timeptr' d : UInt32} {handle wflag : Int16} {s : State}
    (h : Settable timeptr timeptr' handle wflag s d) :
    setThenGet offset timeptr timeptr' handle wflag s =
      Except.ok (unixtime2dos offset (dostime2unix offset d)) := by
  obtain ⟨times, htimes⟩ := Option.ne_none_iff_exists'.mp h.isOpen
  have hset : fdatime offset timeptr handle wflag s = Except.ok { s with
      files := Function.update s.files handle
        (some ⟨dostime2unix offset d, dostime2unix offset d⟩) } := by
    rw [fdatime, if_neg h.set, h.read]
    simp [futimes, htimes]
  have hwrite := writeMemory32_eq_ok.mpr
    ⟨h.mapped, @rfl _ (write s.memory timeptr'.toNat
      (bigEndian 4 (unixtime2dos offset (dostime2unix offset d)).toNat))⟩
  rw [setThenGet, hset, Run.ok_bind, fdatime, if_pos rfl]
  simp only [Function.update_self, hwrite, Run.ok_bind]
  exact readMemory32_eq_ok.mpr ⟨h.mapped, (longAt_write _ _ _).symm⟩

theorem packed_halves {year month day hour min sec : Nat} (hyear : year < 128)
    (hmonth : month < 16) (hday : day < 32) :
    packed year month day hour min sec % 2 ^ 16 = day + 32 * month + 512 * year ∧
      packed year month day hour min sec / 2 ^ 16 = sec + 32 * min + 2048 * hour := by
  simp only [packed]
  omega

/-- The two halves of a stamp. -/
theorem stampOf_halves {s : Int} (hlo : yearStart 1980 * 86400 ≤ s)
    (hhi : s < yearStart 2108 * 86400) :
    (stampOf s % 2 ^ 16 : Nat) = (dateOf (s / 86400)).day +
        32 * ((dateOf (s / 86400)).month + 1) + 512 * ((dateOf (s / 86400)).year - 1980) ∧
      (stampOf s / 2 ^ 16 : Nat) =
        s % 60 / 2 % 16 + 32 * (s / 60 % 60) + 2048 * (s / 3600 % 24) := by
  obtain ⟨hyear, hyear', hmonth, hday⟩ := dateOf_fields hlo hhi
  obtain ⟨hdate, htime⟩ := @packed_halves ((dateOf (s / 86400)).year - 1980).toNat
    ((dateOf (s / 86400)).month + 1) (dateOf (s / 86400)).day (s / 3600 % 24).toNat
    (s / 60 % 60).toNat ((s % 60).toNat / 2 % 16) (by omega) (by omega) hday
  rw [stampOf, hdate, htime]
  clear hdate htime
  constructor
  · omega
  · omega

/-- In one minute the days and the hours are the same. -/
theorem same_minute {s s' : Int} (h : s / 60 = s' / 60) :
    s / 86400 = s' / 86400 ∧ s / 3600 = s' / 3600 := by
  omega

/-- On one day the later minute has the greater stamp. -/
theorem clock_mono {s s' : Int} (hday : s / 86400 = s' / 86400) (hmin : s / 60 < s' / 60) :
    s % 60 / 2 % 16 + 32 * (s / 60 % 60) + 2048 * (s / 3600 % 24) ≤
      s' % 60 / 2 % 16 + 32 * (s' / 60 % 60) + 2048 * (s' / 3600 % 24) := by
  have hlow : s % 60 / 2 % 16 < 16 := by omega
  have hlow' : 0 ≤ s' % 60 / 2 % 16 := by omega
  have hhours : s / 3600 = s / 60 / 60 := by omega
  have hhours' : s' / 3600 = s' / 60 / 60 := by omega
  have hdays : s / 86400 = s / 60 / 60 / 24 := by omega
  have hdays' : s' / 86400 = s' / 60 / 60 / 24 := by omega
  rw [hdays, hdays'] at hday
  rw [hhours, hhours']
  generalize s / 60 = n at *
  generalize s' / 60 = n' at *
  omega

/-- An earlier date has the smaller stamp. -/
theorem date_mono {d d' : Calendar.Date} (h : d.Before d') (hmonth : d.month < 12)
    (hmonth' : d'.month < 12) (hday : d.day < 32) (hday' : d'.day < 32) :
    (d.day + 32 * (d.month + 1) + 512 * (d.year - 1980) : Int) <
      d'.day + 32 * (d'.month + 1) + 512 * (d'.year - 1980) := by
  rcases h with hyear | ⟨hyear, hmonths | ⟨hmonths, hdays⟩⟩ <;> omega

/-- The order of the stamps. -/
theorem stampLe_iff {t t' : Int64} (ht : InRange offset t) (ht' : InRange offset t')
    (hle : t ≤ t') :
    StampLe (unixtime2dos offset t) (unixtime2dos offset t') ↔ ¬ SlipsBack offset t t' := by
  have hls : localSeconds offset t ≤ localSeconds offset t' :=
    Int.add_le_add_right (Int64.le_iff_toInt_le.mp hle) _
  obtain ⟨hdate, htime⟩ := stampOf_halves ht.1 ht.2
  obtain ⟨hdate', htime'⟩ := stampOf_halves ht'.1 ht'.2
  obtain ⟨-, -, hmonth, hday⟩ := dateOf_fields ht.1 ht.2
  obtain ⟨-, -, hmonth', hday'⟩ := dateOf_fields ht'.1 ht'.2
  rw [StampLe, SlipsBack, unixtime2dos_toNat ht, unixtime2dos_toNat ht']
  clear ht ht' hle
  generalize localSeconds offset t = s at *
  generalize localSeconds offset t' = s' at *
  by_cases hmin : s / 60 = s' / 60
  · -- all that differs is the seconds
    obtain ⟨hdays, hhours⟩ := same_minute hmin
    have hsecs : s % 60 ≤ s' % 60 := by omega
    rw [hdays] at hdate
    rw [hmin, hhours] at htime
    have hdateEq := Int.ofNat_inj.mp (hdate.trans hdate'.symm)
    clear hdate hdate' hdays hhours hls
    generalize stampOf s = a at *
    generalize stampOf s' = a' at *
    omega
  · have hlt : s / 60 < s' / 60 := by omega
    refine iff_of_true ?_ (fun h => hmin h.1)
    by_cases hdays : s / 86400 = s' / 86400
    · have hclock := clock_mono hdays hlt
      rw [← htime, ← htime'] at hclock
      rw [hdays] at hdate
      exact Or.inr ⟨Int.ofNat_inj.mp (hdate.trans hdate'.symm), Int.ofNat_le.mp hclock⟩
    · have hbefore := before_of_lt (show s / 86400 < s' / 86400 by omega)
      have hdates := date_mono hbefore hmonth hmonth' hday hday'
      rw [← hdate, ← hdate'] at hdates
      exact Or.inl (Int.ofNat_lt.mp hdates)

end RoundTrips

/-! ### What is left of the round trips -/

/-- The 29th of February 2000, 1:07:30 in the summer of London. -/
def leapStamp : UInt32 := 0x08ef285d

/-- One file is open, and its new stamp is in the memory. -/
def leapState : State where
  memory := write initM68KMemory 0x20000 (bigEndian 4 leapStamp.toNat)
  files := Function.update (fun _ => none) 5 (some ⟨0, 0⟩)

theorem leapState_settable : Settable 0x20000 0x20008 5 1 leapState leapStamp where
  valid := {
    sec := by decide
    min := by decide
    hour := by decide
    month := by decide
    date := ⟨by decide, by decide, by decide⟩ }
  set := by decide
  isOpen := by simp [leapState]
  read := readMemory32_shows (shows_write _ _ _) (by decide)
  mapped := by decide

end ParaTos.Date
