/-
  ParaTos/SearchCalls.lean
  ========================
  **A search, call by call.**

  `Fsfirst` sets up a search, and every call of `Fsnext` in the same DTA goes on with it
  until it comes to its end.  In between the guest may write wherever it likes, but not to
  the pointer in the DTA and to the fields `p_dta` and `mint_domain` of its basepage.

  A search is `Ongoing` as long as its stream is open and `Done` when it was closed.
  `Ongoing.call` says what a call makes of it.  The modules behind this one ask which
  entries the calls report, and where the reported data come from.
-/
import ParaTos.SearchWildcards

namespace ParaTos.FileSearch

open Bytes Filename Loader Memory Streams
open Dir (PointsTo)
open Wild (Setting hitOf)

namespace Calls

/-! ### Searches -/

/-- Where a search keeps what: its DTA, the domain of its process, the pointer to its
    record and the record, its entries, the number of its stream, and the record of the
    host from before. -/
structure Search where
  dta : UInt32
  domain : UInt32
  priv : UInt64
  cell : Pool.Cell DTAPrivate
  entries : List Entry
  id : Nat
  before : List Event

namespace Search

variable (q : Search)

/-- How many entries of the search were asked for so far. -/
def asked (s : State) : Nat := s.host.log.count (.read q.id) - q.before.count (.read q.id)

/-- The entry that `readdir` delivered last. -/
def lastRead (s : State) : Option Entry := q.entries[q.asked s - 1]?

end Search

section Process

variable (currentProcess : UInt32) (localtime : Int64 → Tm)

/-- The stream of the search stands behind the entries `pre`. -/
structure Ongoing (q : Search) (s : State) (pre rest : List Entry) : Prop where
  setting : Setting currentProcess s.memory q.dta q.domain
  points : PointsTo s.memory q.dta q.priv
  nonnull : q.priv ≠ 0
  record : s.records.cells q.priv = some q.cell
  dirh : q.cell.val.dirh ≠ 0
  split : pre ++ rest = q.entries
  stream : s.host.streams q.cell.val.dirh = some ⟨q.id, q.entries, pre.length⟩
  reads : s.host.log.count (.read q.id) = q.before.count (.read q.id) + pre.length
  closed : s.host.log.count (.closed q.id) = q.before.count (.closed q.id)

/-- The stream was closed, once, and the pointer in the DTA is 0. -/
structure Done (q : Search) (s : State) : Prop where
  setting : Setting currentProcess s.memory q.dta q.domain
  null : PointsTo s.memory q.dta 0
  stream : s.host.streams q.cell.val.dirh = none
  closed : s.host.log.count (.closed q.id) = q.before.count (.closed q.id) + 1

/-- What the guest leaves alone between two calls. -/
structure LeftAlone (q : Search) (m m' : Memory) : Prop where
  pointer : ∀ i < 8, m' (q.dta.toNat + i) = m (q.dta.toNat + i)
  dta : ∀ i < 4, m' (currentProcess.toNat + 32 + i) = m (currentProcess.toNat + 32 + i)
  domain : ∀ i < 4, m' (currentProcess.toNat + 256 + i) = m (currentProcess.toNat + 256 + i)

/-- The DTA describes the entry that was read last, with what `fstatat` says about it. -/
structure Describes (q : Search) (s : State) (entry : Entry) : Prop where
  last : q.lastRead s = some entry
  data : ∃ st, entry.stat = some st ∧
    Shows s.memory (q.dta.toNat + 21) (hitBytes localtime (hitOf q.domain entry st))

/-- The DTA holds the data of the hit, whose entry was read last. -/
structure Holds (q : Search) (s : State) (hit : Hit) : Prop where
  last : q.lastRead s = some hit.entry
  data : Shows s.memory (q.dta.toNat + 21) (hitBytes localtime hit)

end Process

theorem Shows.kept {m m' : Memory} {a : Nat} {l : List UInt8} (h : Shows m a l)
    (hkept : ∀ i < l.length, m' (a + i) = m (a + i)) : Shows m' a l := by
  apply h.congr
  intro x hlo hhi
  have hx := hkept (x - a) (by omega)
  rwa [Nat.add_sub_cancel' hlo] at hx

section Guest

variable {currentProcess : UInt32} {localtime : Int64 → Tm} {q : Search} {s : State}
  {pre rest : List Entry} {m : Memory}

theorem Setting.leftAlone (h : Setting currentProcess s.memory q.dta q.domain)
    (hm : LeftAlone currentProcess q s.memory m) : Setting currentProcess m q.dta q.domain :=
  { h with
    current := Shows.kept h.current (by rw [bigEndian_length]; exact hm.dta)
    domain := Shows.kept h.domain (by rw [bigEndian_length]; exact hm.domain) }

theorem points_leftAlone {p : UInt64} (h : PointsTo s.memory q.dta p)
    (hm : LeftAlone currentProcess q s.memory m) : PointsTo m q.dta p :=
  ⟨Shows.kept h.shows (by rw [bigEndian_length]; exact hm.pointer), h.fits⟩

theorem Ongoing.leftAlone (h : Ongoing currentProcess q s pre rest)
    (hm : LeftAlone currentProcess q s.memory m) :
    Ongoing currentProcess q { s with memory := m } pre rest :=
  { h with setting := Setting.leftAlone h.setting hm, points := points_leftAlone h.points hm }

theorem Done.leftAlone (h : Done currentProcess q s) (hm : LeftAlone currentProcess q s.memory m) :
    Done currentProcess q { s with memory := m } :=
  { h with setting := Setting.leftAlone h.setting hm, null := points_leftAlone h.null hm }

end Guest

/-! ### A call of `Fsnext` -/

section Call

variable {currentProcess : UInt32} {localtime : Int64 → Tm} {q : Search} {s : State}
  {pre rest left : List Entry} {unset : Stat}

/-- Behind the end there is nothing left to do. -/
theorem Done.call (h : Done currentProcess q s) :
    fsnext currentProcess localtime unset s = Except.ok (tosEnmfil.toInt16, s) :=
  fsnext_null h.setting.readDta h.null.read

theorem Ongoing.searching (h : Ongoing currentProcess q s pre rest) :
    Searching currentProcess s q.dta q.priv q.cell q.id pre rest q.domain where
  current := h.setting.readDta
  fits := h.setting.fits
  pointer := h.points.read
  nonnull := h.nonnull
  record := h.record
  dirh := h.dirh
  stream := by rw [h.split]; exact h.stream
  domain := h.setting.readDomain

theorem count_reads (id k : Nat) (log : List Event) :
    (List.replicate k (Event.read id) ++ log).count (.read id) = k + log.count (.read id) ∧
      (List.replicate k (Event.read id) ++ log).count (.closed id) = log.count (.closed id) := by
  constructor
  · rw [List.count_append, List.count_replicate_self]
  · have hnone : (List.replicate k (Event.read id)).count (.closed id) = 0 := by
      apply List.count_eq_zero.mpr
      intro hmem
      cases List.eq_of_mem_replicate hmem
    rw [List.count_append, hnone, Nat.zero_add]

/-- The search comes to its end. -/
theorem Ongoing.ended (h : Ongoing currentProcess q s pre rest) {m : Memory}
    (hset : Setting currentProcess m q.dta q.domain) (n k : Nat) (left : List Entry) :
    Done currentProcess q (FileSearch.ended q.priv q.cell ⟨q.id, pre ++ rest, n⟩ q.dta { s with
      memory := m, host := advanced q.cell q.id (pre ++ rest) left k s.host }) := by
  obtain ⟨hset', hnull⟩ := hset.pointed 0
  constructor
  · exact hset'
  · exact hnull
  · exact Function.update_self _ _ _
  · show (Event.closed q.id :: (List.replicate k (Event.read q.id) ++ s.host.log)).count _ = _
    rw [List.count_cons_self, (count_reads _ _ _).2, h.closed]

/-- The search goes on. -/
theorem Ongoing.advanced (h : Ongoing currentProcess q s pre rest) {m : Memory}
    (hset : Setting currentProcess m q.dta q.domain) (hpoints : PointsTo m q.dta q.priv)
    {mid : List Entry} (hrest : rest = mid ++ left) :
    Ongoing currentProcess q { s with
      memory := m
      host := FileSearch.advanced q.cell q.id (pre ++ rest) left mid.length s.host }
      (pre ++ mid) left := by
  have hsplit := h.split
  rw [hrest, ← List.append_assoc] at hsplit
  have hpos : q.entries.length - left.length = (pre ++ mid).length := by
    rw [← hsplit, @List.length_append _ _ left]
    exact Nat.add_sub_cancel _ _
  refine { h with
    setting := hset
    points := hpoints
    split := hsplit
    stream := ?_
    reads := ?_
    closed := ?_ }
  · rw [advanced_self, h.split, hpos]
  · show (List.replicate mid.length (Event.read q.id) ++ s.host.log).count _ = _
    rw [(count_reads _ _ _).1, h.reads, List.length_append, Nat.add_comm mid.length, Nat.add_assoc]
  · show (List.replicate mid.length (Event.read q.id) ++ s.host.log).count _ = _
    rw [(count_reads _ _ _).2, h.closed]

/-- The DTA behind a hit. -/
theorem Ongoing.holds (h : Ongoing currentProcess q s pre rest) {hit : Hit} {mid : List Entry}
    (hrest : rest = mid ++ hit.entry :: left) {t : State}
    (hreads : t.host.log.count (.read q.id) = s.host.log.count (.read q.id) + (mid.length + 1))
    (hdata : Shows t.memory (q.dta.toNat + 21) (hitBytes localtime hit)) :
    Holds localtime q t hit where
  last := by
    have hasked : q.asked t - 1 = (pre ++ mid).length := by
      rw [Search.asked, hreads, h.reads, List.length_append]
      omega
    rw [Search.lastRead, hasked, ← h.split, hrest, ← List.append_assoc]
    simp
  data := hdata

/-- **What a call of `Fsnext` makes of a search.** -/
theorem Ongoing.call (h : Ongoing currentProcess q s pre rest) :
    ((scan (q.domain = 0) q.cell.val unset rest).1 = none ∧
      ∃ t, fsnext currentProcess localtime unset s = Except.ok (tosEnmfil.toInt16, t) ∧
        Done currentProcess q t) ∨
    ∃ hit mid left t,
      scan (q.domain = 0) q.cell.val unset rest = (some hit, left) ∧
      rest = mid ++ hit.entry :: left ∧
      fsnext currentProcess localtime unset s = Except.ok (Mem.tosEOk.toInt16, t) ∧
      Holds localtime q t hit ∧
      (q.cell.val.glob = true → Ongoing currentProcess q t (pre ++ (mid ++ [hit.entry])) left) ∧
      (q.cell.val.glob = false → Done currentProcess q t) := by
  cases hscan : scan (q.domain = 0) q.cell.val unset rest with
  | mk found left =>
  have hfst := congrArg Prod.fst hscan
  cases found with
  | none =>
    obtain ⟨left, hrun⟩ := @fsnext_end _ localtime _ _ _ _ _ _ _ _ _ h.searching hfst
    exact Or.inl ⟨rfl, _, hrun, h.ended h.setting _ _ _⟩
  | some hit =>
    have hrun := @fsnext_hit _ localtime _ _ _ _ _ _ _ _ _ h.searching _ _ hscan
    obtain ⟨-, mid, hrest⟩ := @Wild.finds_some _ _ (fun _ => unset) 0 _ _ _ _ hscan
    have hname := scan_length_le hfst
    have hlen := hitBytes_length localtime hit
    -- the entries up to the hit are what was asked for
    have hreads : FileSearch.reads (q.domain = 0) q.cell.val unset rest =
        (mid ++ [hit.entry]).length := by
      have hcount := reads_hit hscan
      have hsum : rest.length = mid.length + (left.length + 1) := by
        rw [hrest, List.length_append, List.length_cons]
      rw [List.length_append, List.length_singleton]
      omega
    have hrest' : rest = (mid ++ [hit.entry]) ++ left := by
      rw [hrest]
      simp
    rw [hreads] at hrun
    have hset := @Setting.write currentProcess q.dta q.domain _ h.setting 21
      (hitBytes localtime hit) (by unfold sizeofDTA; omega)
    have hpoints := @PointsTo.write _ _ _ h.points (q.dta.toNat + 21) (hitBytes localtime hit)
      (Or.inr (by omega))
    have hshows := shows_write s.memory (q.dta.toNat + 21) (hitBytes localtime hit)
    by_cases hglob : q.cell.val.glob = true
    · simp only [if_pos hglob] at hrun
      refine Or.inr ⟨hit, mid, left, _, rfl, hrest, hrun, h.holds hrest ?_ hshows,
        fun _ => h.advanced hset hpoints hrest', ?_⟩
      · show (List.replicate _ (Event.read q.id) ++ s.host.log).count _ = _
        rw [(count_reads _ _ _).1, List.length_append, List.length_singleton, Nat.add_comm]
      · intro hplain
        rw [hglob] at hplain
        cases hplain
    · simp only [if_neg hglob] at hrun
      refine Or.inr ⟨hit, mid, left, _, rfl, hrest, hrun, h.holds hrest ?_ ?_,
        fun hg => absurd hg hglob, fun _ => h.ended hset _ _ _⟩
      · show (Event.closed q.id :: (List.replicate _ (Event.read q.id) ++ s.host.log)).count _ = _
        rw [List.count_cons_of_ne (by exact fun heq => by cases heq), (count_reads _ _ _).1,
          List.length_append, List.length_singleton, Nat.add_comm]
      · exact hshows.write (Or.inr (by rw [bigEndian_length]; omega))

end Call

/-! ### A call of `Fsfirst` -/

section Fsfirst

variable {currentProcess : UInt32} {localtime : Int64 → Tm} {s : State} {b domain : UInt32}
  {path : List UInt8} {attr : Int16} {priv dirh : UInt64}
  {found : List UInt8 → Option (UInt64 × List Entry)} {entries : List Entry}

/-- The search that `Fsfirst` sets up. -/
def searchOf (s : State) (b domain : UInt32) (priv : UInt64) (record : DTAPrivate)
    (entries : List Entry) : Search where
  dta := b
  domain := domain
  priv := priv
  cell := ⟨s.records.next, record⟩
  entries := entries
  id := s.host.next
  before := s.host.log

theorem ongoing_begun (hset : Setting currentProcess s.memory b domain) (hpriv : priv ≠ 0)
    {record : DTAPrivate} (hdirh : record.dirh ≠ 0) :
    Ongoing currentProcess (searchOf s b domain priv record entries)
      (begun priv record entries b s) [] entries := by
  obtain ⟨hset', hpoints⟩ := hset.pointed priv
  exact ⟨hset', hpoints, hpriv, Function.update_self _ _ _, hdirh, rfl,
    Function.update_self _ _ _, List.count_cons_of_ne (fun heq => by cases heq),
    List.count_cons_of_ne (fun heq => by cases heq)⟩

/-- `Fsfirst` in a directory that opens is a call of `Fsnext`, and names its end otherwise. -/
theorem fsfirst_call (hset : Setting currentProcess s.memory b domain)
    (hfound : found (splitPath path).1 = some (dirh, entries)) {unset : Stat} {r : Int16} {t : State}
    (hnext : fsnext currentProcess localtime unset
      (begun priv (recordOf path attr dirh) entries b s) = Except.ok (r, t)) :
    fsfirst currentProcess localtime (some path) attr priv found unset s =
      Except.ok (if r = tosEnmfil.toInt16 then tosEfilnf else r.toInt32, t) := by
  have hfits := hset.fits
  unfold sizeofDTA at hfits
  exact fsfirst_found hset.readDta (by omega) hfound hnext

end Fsfirst

end Calls

end ParaTos.FileSearch
