/-
  ParaTos/Fpoll.lean
  ==================
  **Waiting for an array of descriptors** (`Fpoll` in `gemdos/file.c`).

  The guest hands over an array of packed entries of eight bytes: a descriptor, the
  events that it waits for and the events that there were.  `Fpoll` makes an array of
  the host of them, hands it to the native `poll` and stores the last field of each
  entry.  The flags of both sides have the same values, so that they are not translated.

  `fpoll_done` says that nothing else of the array, or of the memory, is changed.
-/
import ParaTos.Fselect

namespace ParaTos.Fpoll

open Bytes Memory Words Fselect

/-! ### The call -/

/-- `fds + index * sizeof(struct mint_pollfd)` -/
def entry (fds : UInt32) (index : Nat) : UInt32 := fds + UInt32.ofNat index * 8

/-- The offsets of `events` and `revents` in an entry; `fd` is at its front. -/
def offEvents : UInt32 := 4
def offRevents : UInt32 := 6

/-- The entry of the host's array for one of the guest's. -/
def readEntry (a : UInt32) (m : Memory) : Run PollFd := do
  let fd ← readMemory32 a m
  let events ← readMemory16 (a + offEvents) m
  let revents ← readMemory16 (a + offRevents) m
  return { fd := fd.toInt32, events := events.toInt16, revents := revents.toInt16 }

/-- The loop that fills the host's array, for `n` more entries. -/
def readEntries (fds : UInt32) (m : Memory) : Nat → Nat → Run (List PollFd)
  | 0, _ => Except.ok []
  | n + 1, index => do
    let f ← readEntry (entry fds index) m
    let rest ← readEntries fds m n (index + 1)
    return f :: rest

/-- The loop that stores the answers. -/
def writeRevents (fds : UInt32) : List PollFd → Nat → Memory → Run Memory
  | [], _, m => Except.ok m
  | f :: rest, index, m => do
    let m ← writeMemory16 (entry fds index + offRevents) f.revents.toUInt16 m
    writeRevents fds rest (index + 1) m

/-- `Fpoll(fds, nfds, timeout)`, and the memory after it. -/
def fpoll (poll : Poll) (fds nfds timeout : UInt32) (m : Memory) : Run (Int32 × Memory) := do
  let nativeFds ← readEntries fds m nfds.toNat 0
  match poll nativeFds timeout.toInt32 with
  | .error errno => return (mapErrno errno, m)
  | .ok (retval, revents) =>
    let m ← writeRevents fds (answered nativeFds revents) 0 m
    return (Int32.ofNat retval, m)

/-! ### The array of the guest -/

/-- What stands in an entry. -/
def entryAt (m : Memory) (a : Nat) : PollFd where
  fd := (longAt m a).toInt32
  events := (wordAt m (a + 4)).toInt16
  revents := (wordAt m (a + 6)).toInt16

/-- The entries of the array, in order. -/
def entries (m : Memory) (fds : UInt32) (n : Nat) : List PollFd :=
  (List.range n).map fun i => entryAt m (fds.toNat + 8 * i)

/-- What a call that succeeds does to the memory: it stores the answers, and leaves every byte
    outside the fields for them as it was. -/
structure Answered (fds : UInt32) (n : Nat) (revents : List Int16) (m m' : Memory) : Prop where
  stored : ∀ i < n, ∀ r ∈ revents[i]?,
    Shows m' (fds.toNat + 8 * i + 6) (bigEndian 2 r.toUInt16.toNat)
  kept : ∀ x, (∀ i < n, x < fds.toNat + 8 * i + 6 ∨ fds.toNat + 8 * i + 8 ≤ x) → m' x = m x

section Array

variable {fds : UInt32} {m : Memory}

theorem toNat_entry {i : Nat} (h : fds.toNat + 8 * (i + 1) ≤ 2 ^ 32) :
    (entry fds i).toNat = fds.toNat + 8 * i ∧
      (entry fds i + offEvents).toNat = fds.toNat + 8 * i + 4 ∧
      (entry fds i + offRevents).toNat = fds.toNat + 8 * i + 6 := by
  have hi : (UInt32.ofNat i * 8).toNat = 8 * i := by
    have height : (8 : UInt32).toNat = 8 := rfl
    rw [UInt32.toNat_mul, UInt32.toNat_ofNat', height]
    omega
  have hentry : (entry fds i).toNat = fds.toNat + 8 * i := by
    rw [entry, uint32_add (by omega), hi]
  have hfour : offEvents.toNat = 4 := rfl
  have hsix : offRevents.toNat = 6 := rfl
  rw [uint32_add (by omega), uint32_add (by omega), hentry]
  exact ⟨rfl, rfl, rfl⟩

theorem readEntry_eq_ok {i : Nat} {f : PollFd} (h : fds.toNat + 8 * (i + 1) ≤ 2 ^ 32) :
    readEntry (entry fds i) m = Except.ok f ↔
      (∀ j < 8, Mapped (fds.toNat + 8 * i + j)) ∧ f = entryAt m (fds.toNat + 8 * i) := by
  obtain ⟨hfd, hevents, hrevents⟩ := toNat_entry h
  have hfields := mapped_append (fds.toNat + 8 * i) 4 4
  have hwords := mapped_append (fds.toNat + 8 * i + 4) 2 2
  simp only [readEntry, Run.bind_eq_ok, readMemory32_eq_ok, readMemory16_eq_ok, hfd, hevents,
    hrevents, Run.pure_eq_ok, Run.ok_inj]
  constructor
  · rintro ⟨_, ⟨h0, rfl⟩, _, ⟨h4, rfl⟩, _, ⟨h6, rfl⟩, rfl⟩
    exact ⟨hfields.mpr ⟨h0, hwords.mpr ⟨h4, h6⟩⟩, rfl⟩
  · rintro ⟨hmap, rfl⟩
    obtain ⟨h0, hbehind⟩ := hfields.mp hmap
    obtain ⟨h4, h6⟩ := hwords.mp hbehind
    exact ⟨_, ⟨h0, rfl⟩, _, ⟨h4, rfl⟩, _, ⟨h6, rfl⟩, rfl⟩

/-- The first loop reads the entries in order, and returns if all of them are mapped. -/
theorem readEntries_eq_ok {n i : Nat} {l : List PollFd} (h : fds.toNat + 8 * (i + n) ≤ 2 ^ 32) :
    readEntries fds m n i = Except.ok l ↔
      (∀ j < 8 * n, Mapped (fds.toNat + 8 * i + j)) ∧
        l = (List.range' i n).map fun k => entryAt m (fds.toNat + 8 * k) := by
  induction n generalizing i l with
  | zero => simp [readEntries, eq_comm]
  | succ n ih =>
    have hnext : ∀ j, fds.toNat + 8 * (i + 1) + j = fds.toNat + 8 * i + (8 + j) := by
      intro j
      omega
    simp only [readEntries, Run.bind_eq_ok, readEntry_eq_ok (show fds.toNat + 8 * (i + 1) ≤ 2 ^ 32 by
      omega), ih (show fds.toNat + 8 * (i + 1 + n) ≤ 2 ^ 32 by omega), hnext, Run.pure_eq_ok,
      Run.ok_inj, List.range'_succ, List.map_cons]
    constructor
    · rintro ⟨_, ⟨hfirst, rfl⟩, _, ⟨hrest, rfl⟩, rfl⟩
      refine ⟨fun j hj => ?_, rfl⟩
      rcases Nat.lt_or_ge j 8 with hlt | hge
      · exact hfirst j hlt
      · have hj' := hrest (j - 8) (by omega)
        rwa [Nat.add_sub_cancel' hge] at hj'
    · rintro ⟨hmap, rfl⟩
      exact ⟨_, ⟨fun j hj => hmap j (by omega), rfl⟩, _,
        ⟨fun j hj => hmap (8 + j) (by omega), rfl⟩, rfl⟩

/-- The second loop stores one answer after the other, and the later ones do not reach back. -/
theorem writeRevents_done {l : List PollFd} {i : Nat}
    (h : fds.toNat + 8 * (i + l.length) ≤ 2 ^ 32)
    (hmap : ∀ j < 8 * l.length, Mapped (fds.toNat + 8 * i + j)) :
    ∃ m', writeRevents fds l i m = Except.ok m' ∧
      (∀ k, ∀ f ∈ l[k]?,
        Shows m' (fds.toNat + 8 * (i + k) + 6) (bigEndian 2 f.revents.toUInt16.toNat)) ∧
      ∀ x, (∀ k < l.length, x < fds.toNat + 8 * (i + k) + 6 ∨ fds.toNat + 8 * (i + k) + 8 ≤ x) →
        m' x = m x := by
  induction l generalizing i m with
  | nil => exact ⟨m, rfl, by simp, fun _ _ => rfl⟩
  | cons f l ih =>
    simp only [List.length_cons] at h hmap ⊢
    have hrevents := (@toNat_entry fds i (by omega)).2.2
    have hword : ∀ v : UInt16, (bigEndian 2 v.toNat).length = 2 := fun v => bigEndian_length _ _
    have hwrite : writeMemory16 (entry fds i + offRevents) f.revents.toUInt16 m = Except.ok
        (write m (fds.toNat + 8 * i + 6) (bigEndian 2 f.revents.toUInt16.toNat)) := by
      rw [writeMemory16_eq_ok, hrevents]
      refine ⟨fun j hj => ?_, rfl⟩
      rw [Nat.add_assoc]
      exact hmap (6 + j) (by omega)
    obtain ⟨m', hrest, hstored, hkept⟩ := @ih
      (write m (fds.toNat + 8 * i + 6) (bigEndian 2 f.revents.toUInt16.toNat)) (i + 1) (by omega)
      (fun j hj => by
        rw [show fds.toNat + 8 * (i + 1) + j = fds.toNat + 8 * i + (8 + j) by omega]
        exact hmap (8 + j) (by omega))
    refine ⟨m', ?_, ?_, ?_⟩
    · rw [writeRevents, hwrite, Run.ok_bind, hrest]
    · intro k g hg
      cases k with
      | zero =>
        obtain rfl : f = g := by simpa using hg
        intro j hj
        have hj2 : j < 2 := by rwa [hword] at hj
        rw [hkept _ fun k hk => by omega]
        exact shows_write m _ _ j hj
      | succ k =>
        rw [show i + (k + 1) = i + 1 + k by omega]
        exact hstored k g (by simpa using hg)
    · intro x hx
      rw [hkept x fun k hk => by have hk' := hx (k + 1) (by omega); omega]
      apply write_outside
      have h0 := hx 0 (by omega)
      rw [hword]
      omega

end Array

/-! ### What the call does -/

/-- `poll` fills in the `revents` of every entry that it is given. -/
def FillsIn (poll : Poll) : Prop :=
  ∀ fds timeout k revents, poll fds timeout = .ok (k, revents) → revents.length = fds.length

/-- `poll` is given the guest's descriptors and events, in order.  A call that fails leaves the
    memory alone and returns the error, and one that succeeds stores the answers and nothing
    else.  Where a page of the array is missing, no call returns. -/
structure Done (poll : Poll) (fds nfds timeout : UInt32) (m : Memory) : Prop where
  failed : (∀ j < 8 * nfds.toNat, Mapped (fds.toNat + j)) →
    ∀ e, poll (entries m fds nfds.toNat) timeout.toInt32 = .error e →
      fpoll poll fds nfds timeout m = Except.ok (mapErrno e, m)
  succeeded : (∀ j < 8 * nfds.toNat, Mapped (fds.toNat + j)) →
    ∀ k revents, poll (entries m fds nfds.toNat) timeout.toInt32 = .ok (k, revents) →
      revents.length = nfds.toNat ∧ ∃ m', fpoll poll fds nfds timeout m =
        Except.ok (Int32.ofNat k, m') ∧ Answered fds nfds.toNat revents m m'
  faulted : ¬ (∀ j < 8 * nfds.toNat, Mapped (fds.toNat + j)) →
    ∀ r, fpoll poll fds nfds timeout m ≠ Except.ok r

theorem fpoll_done {poll : Poll} (hpoll : FillsIn poll) {fds nfds timeout : UInt32} (m : Memory)
    (hfit : fds.toNat + 8 * nfds.toNat ≤ 2 ^ 32) : Done poll fds nfds timeout m := by
  have hread : ∀ l, readEntries fds m nfds.toNat 0 = Except.ok l ↔
      (∀ j < 8 * nfds.toNat, Mapped (fds.toNat + j)) ∧ l = entries m fds nfds.toNat := by
    intro l
    have h := @readEntries_eq_ok fds m nfds.toNat 0 l (by rwa [Nat.zero_add])
    rwa [Nat.mul_zero, Nat.add_zero, ← List.range_eq_range'] at h
  constructor
  · intro hmap e he
    rw [fpoll, (hread _).mpr ⟨hmap, rfl⟩, Run.ok_bind, he]
    rfl
  · intro hmap k revents hk
    have hlen : revents.length = nfds.toNat := by
      rw [hpoll _ _ _ _ hk]
      simp [entries]
    have hanswered : (answered (entries m fds nfds.toNat) revents).length = nfds.toNat := by
      simp [answered, entries, hlen]
    obtain ⟨m', hwrite, hstored, hkept⟩ := @writeRevents_done fds m
      (answered (entries m fds nfds.toNat) revents) 0 (by rwa [hanswered, Nat.zero_add])
      (by rwa [hanswered, Nat.mul_zero, Nat.add_zero])
    simp only [hanswered, Nat.zero_add] at hstored hkept
    refine ⟨hlen, m', ?_, fun i hi r hr => ?_, hkept⟩
    · rw [fpoll, (hread _).mpr ⟨hmap, rfl⟩, Run.ok_bind, hk]
      dsimp only
      rw [hwrite]
      rfl
    · apply hstored i { entryAt m (fds.toNat + 8 * i) with revents := r }
      have hentry : (entries m fds nfds.toNat)[i]? = some (entryAt m (fds.toNat + 8 * i)) := by
        simp [entries, hi]
      rw [answered, List.getElem?_zipWith, hentry, hr]
      rfl
  · intro hhole r hrun
    obtain ⟨l, hl, -⟩ := Run.bind_eq_ok.mp hrun
    exact hhole ((hread l).mp hl).1

/-- Three descriptors, and a host that has everything ready that it is asked for. -/
theorem fpoll_done_ready :
    Done (fun fds _ => .ok (fds.countP (·.events ≠ 0), fds.map (·.events))) 0x10000 3 100
      (write initM68KMemory 0x10000 [0, 0, 0, 1, 0, 4, 0xff, 0xff]) :=
  fpoll_done (fun fds timeout k revents h => by cases h; simp) _ (by decide)

end ParaTos.Fpoll
