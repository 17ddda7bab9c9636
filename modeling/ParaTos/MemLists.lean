/-
  ParaTos/MemLists.lean
  =====================
  **The memory manager on plain lists.**

  `Mem.lean` follows pointers.  Here the same calls are described by what they do
  to two Lean lists of blocks: `Step L c r L'` says everything a call `c` can do,
  guards included, and nothing about nodes, links or the order of the search.

  `Links s L` connects the two levels: the free and the used list of the state
  `s` are the chains that spell `L`.  `freeBlock_spec` is the main lemma: the
  pointer surgery of `freeBlock` comes to an `Insertion` into a sorted list.
-/
import ParaTos.Mem
import Mathlib.Data.List.Nodup
import Mathlib.Data.List.Perm.Subperm

namespace ParaTos.Mem

open LinkedList Words

/-! ### The list machine -/

/-- The free list and the used list. -/
structure Lists where
  free : List Block
  used : List Block

/-- `a` ends where `b` starts, in the 32-bit arithmetic of the source. -/
def Touches (a b : Block) : Prop := a.2.start + a.2.size.toUInt32 = b.2.start

instance (a b : Block) : Decidable (Touches a b) := by
  unfold Touches
  infer_instance

/-- `a` grown over `b`. -/
def grow (a b : Block) : Block := (a.1, { a.2 with size := a.2.size + b.2.size })

/-- Two neighbours of the free list after `absorb`. -/
def join (a b : Block) : List Block := if Touches a b then [grow a b] else [a, b]

/-- A block that enters the free list, and the list behind it, after `mergeNext`. -/
def joinNext (c : Block) : List Block → Block × List Block
  | [] => (c, [])
  | d :: post => if Touches c d then (grow c d, post) else (c, d :: post)

/-- The block in front of the entering one, and that one, after `mergePrev`. -/
def joinPrev : Option Block → Block → List Block
  | none, c => [c]
  | some p, c => join p c

/-- What `freeBlock` makes of the free list: the block enters in front of the first
    one that starts at or behind it, and merges with its two neighbours only. -/
inductive Insertion (c : Block) : List Block → List Block → Prop where
  | intro (front : List Block) (prev : Option Block) (post : List Block)
      (hfront : prev = none → front = [])
      (hbefore : ∀ d ∈ front ++ prev.toList, d.2.start < c.2.start)
      (hbehind : ∀ d ∈ post.head?, c.2.start ≤ d.2.start) :
      Insertion c (front ++ prev.toList ++ post)
        (front ++ joinPrev prev (joinNext c post).1 ++ (joinNext c post).2)

/-- `r` is the size of the largest block of the list, 0 when there is none. -/
structure IsLargest (r : UInt32) (free : List Block) : Prop where
  le : ∀ c ∈ free, c.2.size.toUInt32 ≤ r
  attained : r = 0 ∨ ∃ c ∈ free, r = c.2.size.toUInt32

/-- The front of a block that `Malloc` or `Mshrink` cuts, and the part behind it. -/
def headPart (c : Block) (n : Int32) : Block := (c.1, { c.2 with size := n })
def tailPart (p : Ptr) (c : Block) (n : Int32) : Block :=
  (p, ⟨c.2.start + n.toUInt32, c.2.size - n⟩)

/-- What a memory call does to the two lists. -/
inductive Step : Lists → Call → Reply → Lists → Prop where
  | largest {L : Lists} {r : UInt32} (hr : IsLargest r L.free) :
      Step L (.malloc (-1)) (.address r) L
  | outOfMemory {L : Lists} {size : Int32} (hsize : size ≠ -1)
      (hnone : ∀ c ∈ L.free, ¬ roundUp4 size ≤ c.2.size) :
      Step L (.malloc size) (.address 0) L
  | exactFit {pre post used : List Block} {c : Block} {size : Int32} (hsize : size ≠ -1)
      (hfit : c.2.size = roundUp4 size) :
      Step ⟨pre ++ c :: post, used⟩ (.malloc size) (.address c.2.start)
        ⟨pre ++ post, c :: used⟩
  | split {pre post used : List Block} {c : Block} {size : Int32} (p : Ptr) (hsize : size ≠ -1)
      (hfit : roundUp4 size ≤ c.2.size) (hne : c.2.size ≠ roundUp4 size) :
      Step ⟨pre ++ c :: post, used⟩ (.malloc size) (.address c.2.start)
        ⟨pre ++ tailPart p c (roundUp4 size) :: post, headPart c (roundUp4 size) :: used⟩
  | freeUnknown {L : Lists} {block : UInt32} (hnone : ∀ c ∈ L.used, c.2.start ≠ block) :
      Step L (.mfree block) (.status tosEimba) L
  | free {pre post free free' : List Block} {c : Block} {block : UInt32}
      (hpre : ∀ d ∈ pre, d.2.start ≠ block) (hc : c.2.start = block)
      (hins : Insertion c free free') :
      Step ⟨free, pre ++ c :: post⟩ (.mfree block) (.status tosEOk) ⟨free', pre ++ post⟩
  | shrinkToNothing {L L' : Lists} {block : UInt32} {r : Reply}
      (hfree : Step L (.mfree block) r L') : Step L (.mshrink block 0) r L'
  | shrinkUnknown {L : Lists} {block : UInt32} {newsiz : Int32} (hsiz : newsiz ≠ 0)
      (hnone : ∀ c ∈ L.used, c.2.start ≠ block) :
      Step L (.mshrink block newsiz) (.status tosEimba) L
  | shrinkTooLarge {free pre post : List Block} {c : Block} {block : UInt32} {newsiz : Int32}
      (hsiz : newsiz ≠ 0) (hpre : ∀ d ∈ pre, d.2.start ≠ block) (hc : c.2.start = block)
      (hlt : c.2.size < roundUp4 newsiz) :
      Step ⟨free, pre ++ c :: post⟩ (.mshrink block newsiz) (.status tosEgsbf)
        ⟨free, pre ++ c :: post⟩
  | shrink {free free' pre post : List Block} {c : Block} {block : UInt32} {newsiz : Int32}
      (p : Ptr) (hsiz : newsiz ≠ 0) (hpre : ∀ d ∈ pre, d.2.start ≠ block)
      (hc : c.2.start = block) (hle : roundUp4 newsiz ≤ c.2.size)
      (hins : Insertion (tailPart p c (roundUp4 newsiz)) free free') :
      Step ⟨free, pre ++ c :: post⟩ (.mshrink block newsiz) (.status (roundUp4 newsiz))
        ⟨free', pre ++ headPart c (roundUp4 newsiz) :: post⟩

/-! ### Representation -/

/-- The headers of the two lists, as the blocks in front of them. -/
def freeHeader : Block := (.freeMem, headerExtent)
def usedHeader : Block := (.usedMem, headerExtent)

/-- The chains of the state spell the two lists, and share no node. -/
structure Links (s : State) (L : Lists) : Prop where
  free : Chain s.heap (some .freeMem) (freeHeader :: L.free)
  used : Chain s.heap (some .usedMem) (usedHeader :: L.used)
  nodup : (addrs (L.free ++ L.used)).Nodup
  nodes : ∀ p ∈ addrs (L.free ++ L.used), ∃ n < s.fresh, p = Ptr.node n

/-- The rover is `NULL` when the free list is empty, and otherwise on it. -/
def RoverOn (rover : Option Ptr) (free : List Block) : Prop :=
  match rover with
  | none => free = []
  | some p => p ∈ addrs free

/-- A state represents the two lists. -/
structure Rep (s : State) (L : Lists) : Prop where
  links : Links s L
  rover : RoverOn s.rover L.free

/-- A node on neither list. -/
structure Detached (s : State) (L : Lists) (c : Block) : Prop where
  node : ∃ n, s.heap c.1 = some ⟨n, c.2⟩
  notMem : c.1 ∉ addrs (L.free ++ L.used)
  fresh : ∃ n < s.fresh, c.1 = Ptr.node n

section Representation

variable {s : State} {L : Lists}

theorem Links.notMem_freeMem (h : Links s L) : Ptr.freeMem ∉ addrs (L.free ++ L.used) := by
  intro hmem
  obtain ⟨n, -, hn⟩ := h.nodes _ hmem
  cases hn

theorem Links.notMem_usedMem (h : Links s L) : Ptr.usedMem ∉ addrs (L.free ++ L.used) := by
  intro hmem
  obtain ⟨n, -, hn⟩ := h.nodes _ hmem
  cases hn

theorem Links.notMem_new (h : Links s L) : Ptr.node s.fresh ∉ addrs (L.free ++ L.used) := by
  intro hmem
  obtain ⟨n, hlt, hn⟩ := h.nodes _ hmem
  cases hn
  exact Nat.lt_irrefl _ hlt

theorem Links.freeMem (h : Links s L) :
    s.heap .freeMem = some ⟨headPtr L.free, headerExtent⟩ ∧
      Chain s.heap (headPtr L.free) L.free := by
  obtain ⟨-, m, hm, hc⟩ := h.free
  have hhead : m = headPtr L.free := Chain.head hc
  rw [hhead] at hm hc
  exact ⟨hm, hc⟩

theorem Links.usedMem (h : Links s L) :
    s.heap .usedMem = some ⟨headPtr L.used, headerExtent⟩ ∧
      Chain s.heap (headPtr L.used) L.used := by
  obtain ⟨-, m, hm, hc⟩ := h.used
  have hhead : m = headPtr L.used := Chain.head hc
  rw [hhead] at hm hc
  exact ⟨hm, hc⟩

/-- The addresses of a list with its header are pairwise different, and apart from
    those of the other list. -/
theorem Links.nodup_free (h : Links s L) : (addrs (freeHeader :: L.free)).Nodup := by
  have hnodup := h.nodup
  have hnot := h.notMem_freeMem
  simp only [addrs_append, List.nodup_append, List.mem_append, not_or] at hnodup hnot
  exact List.nodup_cons.mpr ⟨hnot.1, hnodup.1⟩

theorem Links.nodup_used (h : Links s L) : (addrs (usedHeader :: L.used)).Nodup := by
  have hnodup := h.nodup
  have hnot := h.notMem_usedMem
  simp only [addrs_append, List.nodup_append, List.mem_append, not_or] at hnodup hnot
  exact List.nodup_cons.mpr ⟨hnot.2, hnodup.2.1⟩

theorem Links.apart (h : Links s L) {p : Ptr} (hp : p ∈ addrs (freeHeader :: L.free)) :
    p ∉ addrs (usedHeader :: L.used) := by
  have hnodup := h.nodup
  have hfreeMem := h.notMem_freeMem
  have husedMem := h.notMem_usedMem
  simp only [addrs_append, List.nodup_append, List.mem_append, not_or]
    at hnodup hfreeMem husedMem
  intro hp'
  rcases List.mem_cons.mp hp with rfl | hp
  · rcases List.mem_cons.mp hp' with he | hp'
    · cases he
    · exact hfreeMem.2 hp'
  · rcases List.mem_cons.mp hp' with he | hp'
    · rw [he] at hp
      exact husedMem.1 hp
    · exact hnodup.2.2 p hp p hp' rfl

theorem Detached.notMem_headers {c : Block} (hd : Detached s L c) :
    c.1 ∉ addrs (freeHeader :: L.free) ∧ c.1 ∉ addrs (usedHeader :: L.used) := by
  obtain ⟨k, -, hk⟩ := hd.fresh
  have hnot := hd.notMem
  simp only [addrs_append, List.mem_append, not_or] at hnot
  simp only [addrs_cons, List.mem_cons, not_or]
  refine ⟨⟨?_, hnot.1⟩, ⟨?_, hnot.2⟩⟩
  · rw [hk]
    exact Ptr.noConfusion
  · rw [hk]
    exact Ptr.noConfusion

/-- There are no more blocks than host `malloc` has handed out nodes. -/
theorem Links.length_le (h : Links s L) : L.free.length + L.used.length ≤ s.fresh := by
  have hsub : addrs (L.free ++ L.used) ⊆ (List.range s.fresh).map Ptr.node := by
    intro p hp
    obtain ⟨n, hlt, rfl⟩ := h.nodes p hp
    exact List.mem_map_of_mem (List.mem_range.mpr hlt)
  have hle := (h.nodup.subperm hsub).length_le
  simpa using hle

end Representation

/-! ### The search loops -/

/-- `freeBlockLoop` stops in front of the first block that starts at or behind `start`. -/
theorem freeBlockLoop_spec {heap : Heap Ptr Extent} (start : UInt32) :
    ∀ (free : List Block) {p : Option Ptr} (prev : Option Ptr) (rounds : Nat),
      Chain heap p free → free.length < rounds →
      ∃ front post, free = front ++ post ∧ (∀ d ∈ front, d.2.start < start) ∧
        (∀ d ∈ post.head?, start ≤ d.2.start) ∧
        freeBlockLoop heap start rounds prev p =
          Except.ok ((front.getLast?.map Prod.fst).or prev, headPtr post) := by
  intro free
  induction free with
  | nil =>
    intro p prev rounds hc hr
    obtain ⟨k, rfl⟩ := Nat.exists_eq_add_of_lt hr
    cases seg_nil.mp hc
    exact ⟨[], [], rfl, by simp, by simp, by simp [freeBlockLoop]⟩
  | cons c free ih =>
    intro p prev rounds hc hr
    obtain ⟨k, rfl⟩ : ∃ k, rounds = k + 1 := ⟨rounds - 1, by omega⟩
    obtain ⟨rfl, n, hn, ht⟩ := hc
    by_cases hle : start ≤ c.2.start
    · refine ⟨[], c :: free, rfl, by simp, by simpa using hle, ?_⟩
      simp [freeBlockLoop, load_some hn, hle]
    · have hlen : free.length < k := by
        simpa using hr
      obtain ⟨front, post, rfl, hfront, hpost, hloop⟩ := ih (some c.1) k ht hlen
      refine ⟨c :: front, post, rfl, ?_, hpost, ?_⟩
      · intro d hd
        rcases List.mem_cons.mp hd with rfl | hd
        · exact UInt32.not_le.mp hle
        · exact hfront d hd
      · simp only [freeBlockLoop, load_some hn, Run.ok_bind, if_neg hle, hloop]
        cases front with
        | nil => simp
        | cons d front => simp [List.getLast?_cons]

/-- `usedLoop` finds the first block that starts at `block`, and its predecessor. -/
theorem usedLoop_spec {heap : Heap Ptr Extent} (block : UInt32) :
    ∀ (used : List Block) {p : Option Ptr} (prev : Ptr) (rounds : Nat),
      Chain heap p used → used.length < rounds →
      ((∀ d ∈ used, d.2.start ≠ block) ∧ usedLoop heap block rounds prev p = Except.ok none) ∨
      ∃ pre c post, used = pre ++ c :: post ∧ (∀ d ∈ pre, d.2.start ≠ block) ∧
        c.2.start = block ∧
        usedLoop heap block rounds prev p = Except.ok (some (lastAddr prev pre, c.1)) := by
  intro used
  induction used with
  | nil =>
    intro p prev rounds hc hr
    obtain ⟨k, rfl⟩ := Nat.exists_eq_add_of_lt hr
    cases seg_nil.mp hc
    exact Or.inl ⟨by simp, by simp [usedLoop]⟩
  | cons c used ih =>
    intro p prev rounds hc hr
    obtain ⟨k, rfl⟩ : ∃ k, rounds = k + 1 := ⟨rounds - 1, by omega⟩
    obtain ⟨rfl, n, hn, ht⟩ := hc
    by_cases heq : c.2.start = block
    · refine Or.inr ⟨[], c, used, rfl, by simp, heq, ?_⟩
      simp [usedLoop, load_some hn, heq, lastAddr]
    · have hlen : used.length < k := by
        simpa using hr
      have hstep : usedLoop heap block (k + 1) prev (some c.1) =
          usedLoop heap block k c.1 n := by
        simp [usedLoop, load_some hn, heq]
      rcases ih c.1 k ht hlen with ⟨hnone, hloop⟩ | ⟨pre, d, post, rfl, hpre, hd, hloop⟩
      · refine Or.inl ⟨?_, hstep.trans hloop⟩
        intro d hd
        rcases List.mem_cons.mp hd with rfl | hd
        · exact heq
        · exact hnone d hd
      · refine Or.inr ⟨c :: pre, d, post, rfl, ?_, hd, hstep.trans hloop⟩
        intro e he
        rcases List.mem_cons.mp he with rfl | he
        · exact heq
        · exact hpre e he

/-! ### Moving a node between the lists -/

/-- Bookkeeping for a node `c` that leaves the two lists. -/
theorem Links.remove {s : State} {L L' : Lists} {c : Block} (hl : Links s L)
    (hperm : (L.free ++ L.used).Perm (c :: (L'.free ++ L'.used))) :
    c.1 ∉ addrs (L'.free ++ L'.used) ∧ (addrs (L'.free ++ L'.used)).Nodup ∧
      (∀ p ∈ addrs (L'.free ++ L'.used), ∃ n < s.fresh, p = Ptr.node n) ∧
      ∃ n < s.fresh, c.1 = Ptr.node n := by
  have haddrs : (addrs (L.free ++ L.used)).Perm (c.1 :: addrs (L'.free ++ L'.used)) :=
    hperm.map Prod.fst
  obtain ⟨hnot, hnodup⟩ := List.nodup_cons.mp (haddrs.nodup_iff.mp hl.nodup)
  refine ⟨hnot, hnodup, ?_, ?_⟩
  · intro p hp
    exact hl.nodes p (haddrs.mem_iff.mpr (List.mem_cons_of_mem _ hp))
  · exact hl.nodes c.1 (haddrs.mem_iff.mpr List.mem_cons_self)

/-- Bookkeeping for a node `c` that enters one of the two lists. -/
theorem Links.add {s : State} {L L' : Lists} {c : Block} (hl : Links s L)
    (hd : Detached s L c) (hperm : (L'.free ++ L'.used).Perm (c :: (L.free ++ L.used))) :
    (addrs (L'.free ++ L'.used)).Nodup ∧
      ∀ p ∈ addrs (L'.free ++ L'.used), ∃ n < s.fresh, p = Ptr.node n := by
  have haddrs : (addrs (L'.free ++ L'.used)).Perm (c.1 :: addrs (L.free ++ L.used)) :=
    hperm.map Prod.fst
  refine ⟨haddrs.nodup_iff.mpr (List.nodup_cons.mpr ⟨hd.notMem, hl.nodup⟩), ?_⟩
  intro p hp
  rcases List.mem_cons.mp (haddrs.mem_iff.mp hp) with rfl | hp
  · exact hd.fresh
  · exact hl.nodes p hp

/-- `prev->next = current->next` on the used list. -/
theorem unlink_used {s : State} {free pre post : List Block} {c : Block}
    (hl : Links s ⟨free, pre ++ c :: post⟩) :
    s.heap c.1 = some ⟨headPtr post, c.2⟩ ∧
      ∃ h, storeNext s.heap (lastAddr .usedMem pre) (headPtr post) = Except.ok h ∧
        Links ⟨h, s.rover, s.fresh⟩ ⟨free, pre ++ post⟩ ∧
        Detached ⟨h, s.rover, s.fresh⟩ ⟨free, pre ++ post⟩ c := by
  obtain ⟨hc, h, hh, hchain, hframe⟩ := Chain.unlink hl.used hl.nodup_used
  have hperm : (free ++ (pre ++ c :: post)).Perm (c :: (free ++ (pre ++ post))) := by
    simpa using @List.perm_middle _ c (free ++ pre) post
  obtain ⟨hnot, hnodup, hnodes, hcnode⟩ := @Links.remove _ _ ⟨free, pre ++ post⟩ c hl hperm
  refine ⟨hc, h, hh, ⟨?_, hchain, hnodup, hnodes⟩, ⟨⟨headPtr post, ?_⟩, hnot, hcnode⟩⟩
  · refine hl.free.frame ?_
    intro d hd
    apply hframe
    intro hmem
    refine hl.apart (mem_addrs hd) ?_
    simp only [addrs_cons, addrs_append, List.mem_cons, List.mem_append] at hmem ⊢
    tauto
  · rw [← hc]
    apply hframe
    exact (notMem_around hl.nodup_used).1

/-- A change in front of a free block leaves the used list. -/
theorem Links.used_frame {s : State} {h : Heap Ptr Extent} {used pre post : List Block} {c : Block}
    (hl : Links s ⟨pre ++ c :: post, used⟩)
    (hframe : ∀ q ∉ addrs (freeHeader :: pre), h q = s.heap q) :
    Chain h (some .usedMem) (usedHeader :: used) := by
  refine hl.used.frame ?_
  intro d hd
  apply hframe
  intro hmem
  refine hl.apart ?_ (mem_addrs hd)
  simp only [addrs_cons, addrs_append, List.mem_cons, List.mem_append] at hmem ⊢
  tauto

/-- `prev->next = current->next` on the free list. -/
theorem unlink_free {s : State} {used pre post : List Block} {c : Block}
    (hl : Links s ⟨pre ++ c :: post, used⟩) :
    s.heap c.1 = some ⟨headPtr post, c.2⟩ ∧
      ∃ h, storeNext s.heap (lastAddr .freeMem pre) (headPtr post) = Except.ok h ∧
        Links ⟨h, s.rover, s.fresh⟩ ⟨pre ++ post, used⟩ ∧
        Detached ⟨h, s.rover, s.fresh⟩ ⟨pre ++ post, used⟩ c := by
  obtain ⟨hc, h, hh, hchain, hframe⟩ := Chain.unlink hl.free hl.nodup_free
  have hperm : (pre ++ c :: post ++ used).Perm (c :: (pre ++ post ++ used)) := by
    simp
  obtain ⟨hnot, hnodup, hnodes, hcnode⟩ := @Links.remove _ _ ⟨pre ++ post, used⟩ c hl hperm
  refine ⟨hc, h, hh, ⟨hchain, ?_, hnodup, hnodes⟩, ⟨⟨headPtr post, ?_⟩, hnot, hcnode⟩⟩
  · exact hl.used_frame hframe
  · rw [← hc]
    apply hframe
    exact (notMem_around hl.nodup_free).1

/-- `current->next = usedMem.next; usedMem.next = current`. -/
theorem push_used {s : State} {L : Lists} {c : Block} (hl : Links s L) (hd : Detached s L c) :
    ∃ h₁ h₂, storeNext s.heap c.1 (headPtr L.used) = Except.ok h₁ ∧
      storeNext h₁ .usedMem (some c.1) = Except.ok h₂ ∧
      (∃ n, h₂ c.1 = some ⟨n, c.2⟩) ∧
      ∀ rover, Links ⟨h₂, rover, s.fresh⟩ ⟨L.free, c :: L.used⟩ := by
  obtain ⟨n, hn⟩ := hd.node
  have hnot := hd.notMem_headers
  obtain ⟨h₁, h₂, hh₁, hh₂, hchain, hframe⟩ :=
    @Chain.insert _ _ _ _ [] _ _ _ _ hl.used hn hl.nodup_used hnot.2
  have hperm : (L.free ++ c :: L.used).Perm (c :: (L.free ++ L.used)) := by
    simp
  obtain ⟨hnodup, hnodes⟩ := @Links.add _ _ ⟨L.free, c :: L.used⟩ c hl hd hperm
  refine ⟨h₁, h₂, hh₁, hh₂, Seg.mem hchain (by simp), ?_⟩
  intro rover
  refine ⟨?_, hchain, hnodup, hnodes⟩
  refine hl.free.frame ?_
  intro d hd'
  have hmem : d.1 ∈ addrs (freeHeader :: L.free) := mem_addrs hd'
  apply hframe
  intro h
  simp only [addrs_cons, addrs_nil, List.mem_cons, List.not_mem_nil, or_false] at h
  rcases h with he | he
  · rw [he] at hmem
    exact hnot.1 hmem
  · rw [he] at hmem
    exact hl.apart hmem (by simp [usedHeader])

/-- `freeme->next = current; prev->next = freeme`, before any merging. -/
theorem insert_links {s : State} {front post used : List Block} {c : Block}
    (hl : Links s ⟨front ++ post, used⟩) (hd : Detached s ⟨front ++ post, used⟩ c) :
    ∃ h₁ h₂, storeNext s.heap c.1 (headPtr post) = Except.ok h₁ ∧
      storeNext h₁ (lastAddr .freeMem front) (some c.1) = Except.ok h₂ ∧
      ∀ rover, Links ⟨h₂, rover, s.fresh⟩ ⟨front ++ c :: post, used⟩ := by
  obtain ⟨n, hn⟩ := hd.node
  have hnot := hd.notMem_headers
  obtain ⟨h₁, h₂, hh₁, hh₂, hchain, hframe⟩ := Chain.insert hl.free hn hl.nodup_free hnot.1
  have hperm : (front ++ c :: post ++ used).Perm (c :: (front ++ post ++ used)) := by
    simp
  obtain ⟨hnodup, hnodes⟩ := @Links.add _ _ ⟨front ++ c :: post, used⟩ c hl hd hperm
  refine ⟨h₁, h₂, hh₁, hh₂, ?_⟩
  intro rover
  refine ⟨hchain, ?_, hnodup, hnodes⟩
  refine hl.used.frame ?_
  intro d hd'
  have hmem : d.1 ∈ addrs (usedHeader :: used) := mem_addrs hd'
  apply hframe
  intro h
  rcases List.mem_cons.mp h with he | h
  · rw [he] at hmem
    exact hnot.2 hmem
  · refine hl.apart ?_ hmem
    simp only [addrs_cons, addrs_append, List.mem_cons, List.mem_append] at h ⊢
    tauto

/-! ### Returning a block to the free list -/

/-- The two merges of `freeBlock`: neighbours of the free list that touch become one. -/
theorem absorb_spec {s : State} {X Y used : List Block} {a b : Block}
    (hr : Rep s ⟨X ++ a :: b :: Y, used⟩) :
    ∃ s', absorb a.1 b.1 s = Except.ok s' ∧ Rep s' ⟨X ++ join a b ++ Y, used⟩ := by
  have hfree : Chain s.heap (some .freeMem) ((freeHeader :: X) ++ a :: b :: Y) := hr.links.free
  obtain ⟨m, ha, hm, n, hb, hY⟩ := hfree.lookup
  subst hm
  by_cases ht : Touches a b
  swap
  · refine ⟨s, ?_, ?_⟩
    · have hne : ¬ a.2.start + a.2.size.toUInt32 = b.2.start := ht
      simp [absorb, load_some ha, load_some hb, hne]
    · rw [join, if_neg ht]
      simpa using hr
  have hnodup := hr.links.nodup
  simp only [List.append_assoc, List.cons_append] at hnodup
  obtain ⟨haX, hnodup'⟩ := nodup_middle.mp hnodup
  obtain ⟨hbX, hnodup''⟩ := nodup_middle.mp hnodup'
  have hnode := hr.links.nodes
  have hfreeMem := hr.links.notMem_freeMem
  have husedMem := hr.links.notMem_usedMem
  simp only [addrs_append, addrs_cons, List.mem_append, List.mem_cons, not_or]
    at haX hbX hfreeMem husedMem hnode
  have hba : b.1 ≠ a.1 := fun h => haX.2.1 h.symm
  -- `a` grows over `b` and takes its link, then `b` is released
  let grown := Function.update s.heap a.1 (some ⟨n, (grow a b).2⟩)
  refine ⟨⟨Function.update grown b.1 none,
    if s.rover = some b.1 then some a.1 else s.rover, s.fresh⟩, ?_, ?_, ?_⟩
  · have hcond : a.2.start + a.2.size.toUInt32 = b.2.start := ht
    have hval : storeVal s.heap a.1 { a.2 with size := a.2.size + b.2.size } =
        Except.ok (Function.update s.heap a.1 (some ⟨some b.1, (grow a b).2⟩)) :=
      storeVal_eq ha _
    have hnext : storeNext (Function.update s.heap a.1 (some ⟨some b.1, (grow a b).2⟩)) a.1 n =
        Except.ok grown := by
      rw [storeNext_eq (Function.update_self _ _ _), Function.update_idem]
    have hb' : grown b.1 = some ⟨n, b.2⟩ := by
      rw [← hb]
      exact Function.update_of_ne hba _ _
    simp [absorb, load_some ha, load_some hb, hcond, hval, hnext, release_eq hb']
  · rw [join, if_pos ht]
    constructor
    · have hgrown : Chain grown (some .freeMem) ((freeHeader :: X) ++ (a.1, (grow a b).2) :: Y) := by
        apply Chain.relink hfree hY
        · simp only [addrs_cons, List.mem_cons, not_or]
          exact ⟨fun h => hfreeMem.1.2.1 h.symm, haX.1⟩
        · exact haX.2.2.1
      have hrest : b.1 ∉ addrs ((freeHeader :: X) ++ (a.1, (grow a b).2) :: Y) := by
        simp only [addrs_append, addrs_cons, List.mem_append, List.mem_cons, not_or]
        exact ⟨⟨fun h => hfreeMem.1.2.2.1 h.symm, hbX.1⟩, hba, hbX.2.1⟩
      simpa [grow] using hgrown.update_of_notMem hrest none
    · have ha_used : a.1 ∉ addrs (usedHeader :: used) := by
        simp only [addrs_cons, List.mem_cons, not_or]
        exact ⟨fun h => husedMem.1.2.1 h.symm, haX.2.2.2⟩
      have hb_used : b.1 ∉ addrs (usedHeader :: used) := by
        simp only [addrs_cons, List.mem_cons, not_or]
        exact ⟨fun h => husedMem.1.2.2.1 h.symm, hbX.2.2⟩
      exact (hr.links.used.update_of_notMem ha_used _).update_of_notMem hb_used none
    · have hshape : X ++ [grow a b] ++ Y ++ used = X ++ grow a b :: (Y ++ used) := by simp
      rw [hshape]
      refine nodup_middle.mpr ⟨?_, hnodup''⟩
      simp only [addrs_append, List.mem_append, not_or]
      exact ⟨haX.1, haX.2.2⟩
    · intro p hp
      apply hnode
      simp only [addrs_append, addrs_cons, addrs_nil, List.mem_append, List.mem_cons] at hp
      have hgrow : (grow a b).1 = a.1 := rfl
      rw [hgrow] at hp
      tauto
  · rw [join, if_pos ht]
    have hrover := hr.rover
    have hgrow : (grow a b).1 = a.1 := rfl
    by_cases hb_rover : s.rover = some b.1
    · simp [hb_rover, RoverOn, hgrow]
    · cases hcase : s.rover with
      | none =>
        rw [hcase] at hrover
        simp [RoverOn] at hrover
      | some q =>
        rw [hcase] at hrover hb_rover
        have hne : q ≠ b.1 := fun h => hb_rover (by rw [h])
        simp only [RoverOn, addrs_append, addrs_cons, List.mem_append, List.mem_cons] at hrover
        simp only [if_neg hb_rover, RoverOn, addrs_append, addrs_cons, addrs_nil,
          List.mem_append, List.mem_cons, hgrow]
        tauto

/-- `freeBlock` returns, and puts the block into the free list as `Insertion` says. -/
theorem freeBlock_spec {s : State} {L : Lists} {c : Block} (hr : Rep s L)
    (hd : Detached s L c) :
    ∃ s' free', freeBlock c.1 s = Except.ok s' ∧ Insertion c L.free free' ∧
      Rep s' ⟨free', L.used⟩ := by
  obtain ⟨free, used⟩ := L
  obtain ⟨n, hn⟩ := hd.node
  obtain ⟨hm, hfree⟩ := hr.links.freeMem
  have hlen := hr.links.length_le
  obtain ⟨front, post, rfl, hfront, hpost, hloop⟩ :=
    freeBlockLoop_spec c.2.start free none (s.fresh + 1) hfree (by simp at hlen; omega)
  obtain ⟨h₁, h₂, hh₁, hh₂, hlinks⟩ := insert_links hr.links hd
  rw [Option.or_none] at hloop
  -- the state between the insertion and the merges
  let s₁ : State := ⟨h₂, if s.rover = none then some c.1 else s.rover, s.fresh⟩
  have hrep₁ : Rep s₁ ⟨front ++ c :: post, used⟩ := by
    refine ⟨hlinks _, ?_⟩
    have hrover := hr.rover
    cases hcase : s.rover with
    | none => simp [s₁, hcase, RoverOn]
    | some q =>
      rw [hcase] at hrover
      simp only [RoverOn, addrs_append, List.mem_append] at hrover
      simp only [s₁, hcase, reduceCtorEq, if_false, RoverOn, addrs_append, addrs_cons,
        List.mem_append, List.mem_cons]
      tauto
  have hnext : ∃ s₂, mergeNext c.1 (headPtr post) s₁ = Except.ok s₂ ∧
      Rep s₂ ⟨front ++ (joinNext c post).1 :: (joinNext c post).2, used⟩ := by
    cases post with
    | nil => exact ⟨s₁, rfl, hrep₁⟩
    | cons d post =>
      obtain ⟨s₂, hs₂, hrep₂⟩ := absorb_spec hrep₁
      refine ⟨s₂, hs₂, ?_⟩
      by_cases ht : Touches c d
      · simpa [joinNext, join, ht] using hrep₂
      · simpa [joinNext, join, ht] using hrep₂
  obtain ⟨s₂, hs₂, hrep₂⟩ := hnext
  have hfst : (joinNext c post).1.1 = c.1 := by
    cases post with
    | nil => rfl
    | cons d post =>
      by_cases ht : Touches c d
      · simp [joinNext, ht, grow]
      · simp [joinNext, ht]
  have hrun : freeBlock c.1 s = mergePrev c.1 (front.getLast?.map Prod.fst) s₂ := by
    simp only [freeBlock, load_some hn, load_some hm, Run.ok_bind, hloop, hh₁,
      lastAddr_eq_getD, hh₂]
    change (mergeNext c.1 (headPtr post) s₁ >>= mergePrev c.1 _) = _
    rw [hs₂, Run.ok_bind]
  rw [hrun]
  rcases List.eq_nil_or_concat front with rfl | ⟨l, p, rfl⟩
  · refine ⟨s₂, _, rfl, ?_, hrep₂⟩
    exact Insertion.intro [] none post (fun _ => rfl) hfront hpost
  · rw [List.concat_eq_append] at hrep₂ hfront ⊢
    have hshape : l ++ [p] ++ (joinNext c post).1 :: (joinNext c post).2 =
        l ++ p :: (joinNext c post).1 :: (joinNext c post).2 := by simp
    rw [hshape] at hrep₂
    obtain ⟨s₃, hs₃, hrep₃⟩ := absorb_spec hrep₂
    refine ⟨s₃, _, ?_, Insertion.intro l (some p) post (by simp) hfront hpost,
      hrep₃⟩
    rw [hfst] at hs₃
    simpa [mergePrev] using hs₃

end ParaTos.Mem
