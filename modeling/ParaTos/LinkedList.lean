/-
  ParaTos/LinkedList.lean
  =======================
  **Singly linked lists threaded through a heap of nodes.**

  A heap maps node addresses to nodes; a node holds the address of the next
  one and a value.  `Seg h p l q` says that following `next` from the pointer
  `p` visits the cells `l` and arrives at `q`; a list that ends in `NULL` is a
  `Chain`.  A C list with a header node is the chain that starts at the header,
  so that the node before any list position is a member of the chain: unlinking
  and inserting are then the single edit of one node's `next` field.

  Nothing here names a particular program.
-/
import Mathlib.Logic.Function.Basic
import Mathlib.Data.List.Nodup
import ParaTos.Run

namespace ParaTos.LinkedList

/-- A list node: the pointer to the next node (`none` is `NULL`) and a value. -/
structure Node (P α : Type) where
  next : Option P
  val : α
deriving DecidableEq, Repr

/-- A heap of nodes; an address that was never allocated, or was released, holds
    nothing. -/
abbrev Heap (P α : Type) := P → Option (Node P α)

/-- A node of a list together with its address. -/
abbrev Cell (P α : Type) := P × α

section

variable {P α : Type}

/-- Following `next` from `p` visits the cells `l` and arrives at `q`. -/
def Seg (h : Heap P α) : Option P → List (Cell P α) → Option P → Prop
  | p, [], q => p = q
  | p, c :: l, q => p = some c.1 ∧ ∃ n, h c.1 = some ⟨n, c.2⟩ ∧ Seg h n l q

/-- A list that ends in `NULL`. -/
abbrev Chain (h : Heap P α) (p : Option P) (l : List (Cell P α)) : Prop := Seg h p l none

@[simp] theorem seg_nil {h : Heap P α} {p q : Option P} : Seg h p [] q ↔ p = q := Iff.rfl

theorem seg_cons {h : Heap P α} {p q : Option P} {c : Cell P α} {l : List (Cell P α)} :
    Seg h p (c :: l) q ↔ p = some c.1 ∧ ∃ n, h c.1 = some ⟨n, c.2⟩ ∧ Seg h n l q := Iff.rfl

/-- A segment of a concatenation: both halves and the pointer at the seam. -/
theorem seg_append {h : Heap P α} {l₁ l₂ : List (Cell P α)} :
    ∀ {p q : Option P}, Seg h p (l₁ ++ l₂) q ↔ ∃ m, Seg h p l₁ m ∧ Seg h m l₂ q := by
  induction l₁ with
  | nil =>
    intro p q
    simp
  | cons c l₁ ih =>
    intro p q
    simp only [List.cons_append, seg_cons, ih]
    constructor
    · rintro ⟨hp, n, hn, m, h₁, h₂⟩
      exact ⟨m, ⟨hp, n, hn, h₁⟩, h₂⟩
    · rintro ⟨m, ⟨hp, n, hn, h₁⟩, h₂⟩
      exact ⟨hp, n, hn, m, h₁, h₂⟩

/-- A segment reads only its own nodes. -/
theorem Seg.frame {h h' : Heap P α} {l : List (Cell P α)} :
    ∀ {p q : Option P}, Seg h p l q → (∀ c ∈ l, h' c.1 = h c.1) → Seg h' p l q := by
  induction l with
  | nil =>
    intro p q hs _
    exact hs
  | cons c l ih =>
    intro p q hs hf
    obtain ⟨hp, n, hn, ht⟩ := hs
    refine ⟨hp, n, (hf c (by simp)).trans hn, ih ht ?_⟩
    intro d hd
    exact hf d (by simp [hd])

/-- A cell of a segment is in the heap with the value the segment gives it. -/
theorem Seg.lookup {h : Heap P α} {p q : Option P} {l₁ l₂ : List (Cell P α)} {c : Cell P α}
    (hs : Seg h p (l₁ ++ c :: l₂) q) :
    ∃ n, h c.1 = some ⟨n, c.2⟩ ∧ Seg h n l₂ q := by
  obtain ⟨m, -, hc⟩ := seg_append.mp hs
  exact hc.2

theorem Seg.mem {h : Heap P α} {p q : Option P} {l : List (Cell P α)} {c : Cell P α}
    (hs : Seg h p l q) (hc : c ∈ l) : ∃ n, h c.1 = some ⟨n, c.2⟩ := by
  obtain ⟨l₁, l₂, rfl⟩ := List.append_of_mem hc
  obtain ⟨n, hn, -⟩ := hs.lookup
  exact ⟨n, hn⟩

/-- The pointer that heads a chain. -/
def headPtr : List (Cell P α) → Option P
  | [] => none
  | c :: _ => some c.1

@[simp] theorem headPtr_nil : headPtr ([] : List (Cell P α)) = none := rfl

@[simp] theorem headPtr_cons (c : Cell P α) (l : List (Cell P α)) :
    headPtr (c :: l) = some c.1 := rfl

theorem headPtr_eq_none {l : List (Cell P α)} : headPtr l = none ↔ l = [] := by
  cases l <;> simp

/-- The addresses of a list of cells. -/
def addrs (l : List (Cell P α)) : List P := l.map Prod.fst

@[simp] theorem addrs_nil : addrs ([] : List (Cell P α)) = [] := rfl

@[simp] theorem addrs_cons (c : Cell P α) (l : List (Cell P α)) :
    addrs (c :: l) = c.1 :: addrs l := rfl

@[simp] theorem addrs_append (l₁ l₂ : List (Cell P α)) :
    addrs (l₁ ++ l₂) = addrs l₁ ++ addrs l₂ := List.map_append

@[simp] theorem length_addrs (l : List (Cell P α)) : (addrs l).length = l.length :=
  List.length_map _

theorem mem_addrs {c : Cell P α} {l : List (Cell P α)} (hc : c ∈ l) : c.1 ∈ addrs l :=
  List.mem_map_of_mem hc

theorem nodup_middle {l₁ l₂ : List (Cell P α)} {a : Cell P α} :
    (addrs (l₁ ++ a :: l₂)).Nodup ↔ a.1 ∉ addrs (l₁ ++ l₂) ∧ (addrs (l₁ ++ l₂)).Nodup := by
  rw [addrs_append, addrs_cons, List.nodup_middle, List.nodup_cons, addrs_append]

/-- A cell stands once in such a list. -/
theorem notMem_around {l₁ l₂ : List (Cell P α)} {a c : Cell P α}
    (h : (addrs (a :: (l₁ ++ c :: l₂))).Nodup) : c.1 ∉ addrs (a :: l₁) ∧ c.1 ∉ addrs l₂ := by
  rw [← List.cons_append] at h
  have hmid := (nodup_middle.mp h).1
  rwa [addrs_append, List.mem_append, not_or] at hmid

/-- The address of the last cell of a list, or the one in front of it. -/
def lastAddr (a : P) : List (Cell P α) → P
  | [] => a
  | c :: l => lastAddr c.1 l

theorem lastAddr_append (a : P) (l : List (Cell P α)) (c : Cell P α) :
    lastAddr a (l ++ [c]) = c.1 := by
  induction l generalizing a with
  | nil => rfl
  | cons d l ih => exact ih d.1

theorem lastAddr_eq_getD (a : P) (l : List (Cell P α)) :
    (l.getLast?.map Prod.fst).getD a = lastAddr a l := by
  rcases List.eq_nil_or_concat l with rfl | ⟨l, c, rfl⟩
  · rfl
  · rw [List.concat_eq_append, lastAddr_append]
    simp

theorem lastAddr_mem (a : P) (l : List (Cell P α)) :
    lastAddr a l ∈ a :: addrs l := by
  induction l generalizing a with
  | nil => simp [lastAddr]
  | cons c l ih => simpa [lastAddr] using Or.inr (ih c.1)

theorem Chain.head {h : Heap P α} {p : Option P} {l : List (Cell P α)} (hc : Chain h p l) :
    p = headPtr l := by
  cases l with
  | nil => exact hc
  | cons c l => exact hc.1

/-- The chain behind a prefix starts where the prefix's last node points. -/
theorem Chain.suffix {h : Heap P α} {p : Option P} {l₁ l₂ : List (Cell P α)}
    (hc : Chain h p (l₁ ++ l₂)) : Chain h (headPtr l₂) l₂ := by
  obtain ⟨m, -, hm⟩ := seg_append.mp hc
  have hhead : m = headPtr l₂ := Chain.head hm
  rw [hhead] at hm
  exact hm

/-- Read the node a pointer designates. -/
def load (h : Heap P α) : Option P → Run (Node P α)
  | none => Except.error .badPointer
  | some p => Run.ofOption .badPointer (h p)

theorem load_some {h : Heap P α} {p : P} {b : Node P α} (hp : h p = some b) :
    load h (some p) = Except.ok b := by
  simp [load, hp]

end

/-! ### Stores -/

section Edit

variable {P α : Type} [DecidableEq P]

/-- Overwrite the node a pointer designates. -/
def store (h : Heap P α) (p : P) (b : Node P α) : Run (Heap P α) :=
  match h p with
  | none => Except.error .badPointer
  | some _ => Except.ok (Function.update h p (some b))

/-- `p->next = n`. -/
def storeNext (h : Heap P α) (p : P) (n : Option P) : Run (Heap P α) := do
  let b ← load h (some p)
  store h p { b with next := n }

/-- `p->val = v`. -/
def storeVal (h : Heap P α) (p : P) (v : α) : Run (Heap P α) := do
  let b ← load h (some p)
  store h p { b with val := v }

/-- `free(p)`. -/
def release (h : Heap P α) (p : P) : Run (Heap P α) :=
  match h p with
  | none => Except.error .badPointer
  | some _ => Except.ok (Function.update h p none)

theorem storeNext_eq {h : Heap P α} {p : P} {b : Node P α} (hp : h p = some b) (n : Option P) :
    storeNext h p n = Except.ok (Function.update h p (some ⟨n, b.val⟩)) := by
  simp [storeNext, load, store, hp]

theorem storeVal_eq {h : Heap P α} {p : P} {b : Node P α} (hp : h p = some b) (v : α) :
    storeVal h p v = Except.ok (Function.update h p (some ⟨b.next, v⟩)) := by
  simp [storeVal, load, store, hp]

theorem release_eq {h : Heap P α} {p : P} {b : Node P α} (hp : h p = some b) :
    release h p = Except.ok (Function.update h p none) := by
  simp [release, hp]

/-! ### Edits of a chain -/

/-- A chain survives the update of a node outside it. -/
theorem Seg.update_of_notMem {h : Heap P α} {p q : Option P} {l : List (Cell P α)} {a : P}
    (hs : Seg h p l q) (ha : a ∉ addrs l) (b : Option (Node P α)) :
    Seg (Function.update h a b) p l q := by
  refine hs.frame ?_
  intro c hc
  have hne : c.1 ≠ a := by
    rintro rfl
    exact ha (mem_addrs hc)
  exact Function.update_of_ne hne _ _

/-- **Relinking.**  Redirecting the `next` field of a chain's member `a` to a
    list that avoids everything up to `a` replaces what follows `a`; the value
    of `a` may change on the way. -/
theorem Chain.relink {h : Heap P α} {p n : Option P} {l₁ l₂ l₃ : List (Cell P α)}
    {a : P} {v : α} (hc : Chain h p (l₁ ++ (a, v) :: l₂)) (hn : Chain h n l₃)
    (h₁ : a ∉ addrs l₁) (h₃ : a ∉ addrs l₃) (w : α) :
    Chain (Function.update h a (some ⟨n, w⟩)) p (l₁ ++ (a, w) :: l₃) := by
  obtain ⟨m, hl, hm, -⟩ := seg_append.mp hc
  refine seg_append.mpr ⟨m, hl.update_of_notMem h₁ _, hm, n, ?_, ?_⟩
  · exact Function.update_self _ _ _
  · exact hn.update_of_notMem h₃ _

/-- **`prev->next = n`.**  Behind any prefix of a chain, `next` of the prefix's last
    node can be redirected to another list that avoids the prefix. -/
theorem Chain.relink_last {h : Heap P α} {n : Option P} {l₁ l₂ l₃ : List (Cell P α)}
    {a : Cell P α} (hc : Chain h (some a.1) (a :: (l₁ ++ l₂))) (hn : Chain h n l₃)
    (hnodup : (addrs (a :: l₁)).Nodup) (hdisj : (addrs (a :: l₁)).Disjoint (addrs l₃)) :
    ∃ b, h (lastAddr a.1 l₁) = some b ∧
      Chain (Function.update h (lastAddr a.1 l₁) (some ⟨n, b.val⟩)) (some a.1)
        (a :: (l₁ ++ l₃)) := by
  rcases List.eq_nil_or_concat l₁ with rfl | ⟨l, c, rfl⟩
  · obtain ⟨m, hm⟩ := Seg.mem hc (List.mem_cons_self (a := a))
    refine ⟨⟨m, a.2⟩, hm, ?_⟩
    have hnot : a.1 ∉ addrs l₃ := hdisj (by simp)
    exact @Chain.relink _ _ _ _ _ _ [] _ _ _ _ hc hn (by simp) hnot a.2
  · rw [List.concat_eq_append] at hc hnodup hdisj ⊢
    rw [lastAddr_append]
    have hshape : a :: (l ++ [c] ++ l₂) = (a :: l) ++ (c.1, c.2) :: l₂ := by simp
    rw [hshape] at hc
    obtain ⟨m, hm, -⟩ := hc.lookup
    refine ⟨⟨m, c.2⟩, hm, ?_⟩
    have hnot : c.1 ∉ addrs (a :: l) := by
      have happ : addrs (a :: (l ++ [c])) = addrs (a :: l) ++ [c.1] := by simp
      rw [happ, List.nodup_append] at hnodup
      intro hmem
      exact hnodup.2.2 c.1 hmem c.1 (by simp) rfl
    have hnot₃ : c.1 ∉ addrs l₃ := hdisj (by simp)
    have hshape₃ : a :: (l ++ [c] ++ l₃) = (a :: l) ++ (c.1, c.2) :: l₃ := by simp
    rw [hshape₃]
    exact Chain.relink hc hn hnot hnot₃ c.2

/-- **Unlinking.**  `prev->next = current->next` takes `current` out of a chain with
    header `a`, and touches no node but `prev`. -/
theorem Chain.unlink {h : Heap P α} {l₁ l₂ : List (Cell P α)} {a c : Cell P α}
    (hc : Chain h (some a.1) (a :: (l₁ ++ c :: l₂)))
    (hnodup : (addrs (a :: (l₁ ++ c :: l₂))).Nodup) :
    h c.1 = some ⟨headPtr l₂, c.2⟩ ∧
      ∃ h', storeNext h (lastAddr a.1 l₁) (headPtr l₂) = Except.ok h' ∧
        Chain h' (some a.1) (a :: (l₁ ++ l₂)) ∧ ∀ p ∉ addrs (a :: l₁), h' p = h p := by
  have hsplit : Chain h (some a.1) ((a :: l₁) ++ c :: l₂) := hc
  obtain ⟨m, hm, hl₂⟩ := hsplit.lookup
  have hhead : m = headPtr l₂ := Chain.head hl₂
  subst hhead
  have hshape : addrs (a :: (l₁ ++ c :: l₂)) = addrs (a :: l₁) ++ addrs (c :: l₂) := by simp
  rw [hshape, List.nodup_append] at hnodup
  have hdisj : (addrs (a :: l₁)).Disjoint (addrs l₂) := by
    intro p hp hp'
    exact hnodup.2.2 p hp p (List.mem_cons_of_mem _ hp') rfl
  obtain ⟨b, hb, hlinked⟩ := Chain.relink_last hc hl₂ hnodup.1 hdisj
  refine ⟨hm, _, storeNext_eq hb _, hlinked, ?_⟩
  intro p hp
  refine Function.update_of_ne ?_ _ _
  rintro rfl
  exact hp (lastAddr_mem a.1 l₁)

/-- **Inserting.**  `c->next = current; prev->next = c` puts a node that is not on a
    chain with header `a` behind any prefix of it, and touches only `c` and `prev`. -/
theorem Chain.insert {h : Heap P α} {l₁ l₂ : List (Cell P α)} {a c : Cell P α} {n : Option P}
    (hc : Chain h (some a.1) (a :: (l₁ ++ l₂))) (hn : h c.1 = some ⟨n, c.2⟩)
    (hnodup : (addrs (a :: (l₁ ++ l₂))).Nodup) (hnot : c.1 ∉ addrs (a :: (l₁ ++ l₂))) :
    ∃ h₁ h₂, storeNext h c.1 (headPtr l₂) = Except.ok h₁ ∧
      storeNext h₁ (lastAddr a.1 l₁) (some c.1) = Except.ok h₂ ∧
      Chain h₂ (some a.1) (a :: (l₁ ++ c :: l₂)) ∧
      ∀ p ∉ c.1 :: addrs (a :: l₁), h₂ p = h p := by
  let h₁ := Function.update h c.1 (some ⟨headPtr l₂, c.2⟩)
  have hshape : addrs (a :: (l₁ ++ l₂)) = addrs (a :: l₁) ++ addrs l₂ := by simp
  rw [hshape] at hnot hnodup
  rw [List.mem_append, not_or] at hnot
  rw [List.nodup_append] at hnodup
  have hold : Chain h₁ (some a.1) (a :: (l₁ ++ l₂)) := by
    refine hc.update_of_notMem ?_ _
    rw [hshape, List.mem_append, not_or]
    exact hnot
  have hsplit : Chain h (some a.1) ((a :: l₁) ++ l₂) := hc
  have hnew : Chain h₁ (some c.1) (c :: l₂) :=
    ⟨rfl, headPtr l₂, Function.update_self _ _ _, hsplit.suffix.update_of_notMem hnot.2 _⟩
  have hdisj : (addrs (a :: l₁)).Disjoint (addrs (c :: l₂)) := by
    intro p hp hp'
    rcases List.mem_cons.mp hp' with rfl | hp'
    · exact hnot.1 hp
    · exact hnodup.2.2 p hp p hp' rfl
  obtain ⟨b, hb, hlinked⟩ := Chain.relink_last hold hnew hnodup.1 hdisj
  refine ⟨h₁, _, storeNext_eq hn _, storeNext_eq hb _, hlinked, ?_⟩
  intro p hp
  rw [List.mem_cons, not_or] at hp
  have hne : p ≠ lastAddr a.1 l₁ := by
    rintro rfl
    exact hp.2 (lastAddr_mem a.1 l₁)
  rw [Function.update_of_ne hne]
  exact Function.update_of_ne hp.1 _ _

/-- **Replacing.**  `prev->next = t`, with a new node `t` that takes the link of
    `current`, puts `t` in the place of `current`. -/
theorem Chain.replace {h : Heap P α} {l₁ l₂ : List (Cell P α)} {a c t : Cell P α}
    (hc : Chain h (some a.1) (a :: (l₁ ++ c :: l₂)))
    (hnodup : (addrs (a :: (l₁ ++ c :: l₂))).Nodup)
    (hnot : t.1 ∉ addrs (a :: (l₁ ++ c :: l₂))) :
    ∃ h₁, storeNext h (lastAddr a.1 l₁) (some t.1) = Except.ok h₁ ∧
      Chain (Function.update h₁ t.1 (some ⟨headPtr l₂, t.2⟩)) (some a.1) (a :: (l₁ ++ t :: l₂)) ∧
      ∀ p ∉ addrs (a :: l₁), h₁ p = h p := by
  have hsplit : Chain h (some a.1) ((a :: l₁) ++ c :: l₂) := hc
  obtain ⟨m, hm, hl₂⟩ := hsplit.lookup
  have hhead : m = headPtr l₂ := Chain.head hl₂
  subst hhead
  have hshape : addrs (a :: (l₁ ++ c :: l₂)) = addrs (a :: l₁) ++ c.1 :: addrs l₂ := by simp
  rw [hshape] at hnodup
  rw [hshape, List.mem_append, List.mem_cons, not_or, not_or] at hnot
  rw [List.nodup_append, List.nodup_cons] at hnodup
  have hlast : lastAddr a.1 l₁ ≠ t.1 := by
    intro he
    have hmem := lastAddr_mem a.1 l₁
    rw [he] at hmem
    exact hnot.1 hmem
  -- the link to the new node may as well be stored after the node itself
  let h₀ := Function.update h t.1 (some ⟨headPtr l₂, t.2⟩)
  have hold : Chain h₀ (some a.1) (a :: (l₁ ++ c :: l₂)) := by
    refine hc.update_of_notMem ?_ _
    rw [hshape, List.mem_append, List.mem_cons, not_or, not_or]
    exact hnot
  have htail : Chain h₀ (some t.1) (t :: l₂) :=
    ⟨rfl, headPtr l₂, Function.update_self _ _ _, hl₂.update_of_notMem hnot.2.2 _⟩
  have hdisj : (addrs (a :: l₁)).Disjoint (addrs (t :: l₂)) := by
    intro p hp hp'
    rcases List.mem_cons.mp hp' with rfl | hp'
    · exact hnot.1 hp
    · exact hnodup.2.2 p hp p (List.mem_cons_of_mem _ hp') rfl
  obtain ⟨b, hb, hlinked⟩ := Chain.relink_last hold htail hnodup.1 hdisj
  have hb' : h (lastAddr a.1 l₁) = some b := by
    rw [← hb]
    exact (Function.update_of_ne hlast _ _).symm
  refine ⟨_, storeNext_eq hb' _, ?_, ?_⟩
  · rw [Function.update_comm hlast]
    exact hlinked
  · intro p hp
    refine Function.update_of_ne ?_ _ _
    rintro rfl
    exact hp (lastAddr_mem a.1 l₁)

end Edit

end ParaTos.LinkedList
