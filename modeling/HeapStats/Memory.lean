import HeapStats.Region
/-!
# Memory — the counter blocks of one snapshot, and the child chains

`TObjectCounter`, `TChildClassCounter` and `TClassCounter` as `snapShotContainer.hpp` declares them, each in a region
of its own, and the three counter operations of the portable build (`clearObjectCounter`, `addInc`, and `Inc`).

A class counter's children form an intrusive list through `next`.  `Seg h p xs q` says that walking `next` from `p`
visits the live blocks `xs` and arrives at `q`; a `Chain` is a segment that arrives at `NULL`.  A chain is a finite,
acyclic, `NULL`-terminated list: it is determined by its head (`Chain.unique`), never revisits a block
(`Chain.nodup`), and is no longer than the region (`Chain.length_le`), which is the bound the loops of the model walk
with.  `Seg.frame` is the frame rule: stores that keep the `next` of the visited blocks keep the segment.
-/
namespace HeapStats

/-- `TObjectCounter`: instance count and total size, two `jlong`s. -/
structure TObjectCounter where
  count : BitVec 64
  total_size : BitVec 64
deriving DecidableEq, Repr

/-- `TChildClassCounter`: one node of a class counter's child list. -/
structure TChildClassCounter where
  counter : Ptr
  objData : Ptr
  next : Ptr
  callCount : UInt32
deriving DecidableEq, Repr

/-- `TClassCounter`.  Its `spinlock` word is left out: only `pushNewChildClass` takes it, and the model runs one call at
a time. -/
structure TClassCounter where
  counter : Ptr
  child : Ptr
  offsets : Ptr
  offsetCount : Int
deriving DecidableEq, Repr

/-- The blocks of one snapshot container. -/
structure Memory where
  counters : Region TObjectCounter
  children : Region TChildClassCounter
  classes : Region TClassCounter
deriving DecidableEq

/-- The zero counter. -/
def TObjectCounter.zero : TObjectCounter := ⟨0, 0⟩

/-- `clearObjectCounter(counter)`. -/
def clearObjectCounter (counters : Region TObjectCounter) (counter : Ptr) : Option (Region TObjectCounter) :=
  counters.modify counter fun c => { c with count := 0, total_size := 0 }

/-- `addInc(counter, operand)`, the portable version: the operand's fields are added to the counter's. -/
def addInc (counters : Region TObjectCounter) (counter : Ptr) (operand : TObjectCounter) :
    Option (Region TObjectCounter) :=
  counters.modify counter fun c =>
    { c with count := c.count + operand.count, total_size := c.total_size + operand.total_size }

/-- Modelled from the spec: `Inc` is declared in `snapShotContainer.hpp` but defined only in the architecture headers,
which are not in the sources.  §4.2: add one to `count` and `size` to `total_size`. -/
def Inc (counters : Region TObjectCounter) (counter : Ptr) (size : BitVec 64) : Option (Region TObjectCounter) :=
  counters.modify counter fun c => { c with count := c.count + 1, total_size := c.total_size + size }

/-! ## Segments and chains -/

/-- `Seg h p xs q`: walking `next` from `p` through `h` visits the live, non-`NULL` blocks `xs` in order and arrives at
`q`. -/
inductive Seg (h : Region TChildClassCounter) : Ptr → List Ptr → Ptr → Prop
  | nil (p : Ptr) : Seg h p [] p
  | cons {p q : Ptr} {n : TChildClassCounter} {xs : List Ptr} :
      p ≠ 0 → h.read p = some n → Seg h n.next xs q → Seg h p (p :: xs) q

/-- A child list: the segment from `p` that arrives at `NULL`. -/
def Chain (h : Region TChildClassCounter) (p : Ptr) (xs : List Ptr) : Prop := Seg h p xs 0

variable {h h' : Region TChildClassCounter} {p q r a : Ptr} {xs ys : List Ptr}

namespace Seg

theorem cons_iff : Seg h p (a :: xs) q ↔ p = a ∧ a ≠ 0 ∧ ∃ n, h.read a = some n ∧ Seg h n.next xs q := by
  constructor
  · rintro (_ | ⟨hp, hn, hs⟩)
    exact ⟨rfl, hp, _, hn, hs⟩
  · rintro ⟨rfl, hp, n, hn, hs⟩
    exact .cons hp hn hs

theorem nil_iff : Seg h p [] q ↔ p = q :=
  ⟨fun | .nil _ => rfl, fun e => e ▸ .nil p⟩

theorem singleton_iff : Seg h p [a] q ↔ p = a ∧ a ≠ 0 ∧ ∃ n, h.read a = some n ∧ n.next = q := by
  simp only [cons_iff, nil_iff]

theorem append (h1 : Seg h p xs q) (h2 : Seg h q ys r) : Seg h p (xs ++ ys) r := by
  induction h1 with
  | nil => exact h2
  | cons hp hn _ ih => exact .cons hp hn (ih h2)

theorem of_append : Seg h p (xs ++ ys) r → ∃ q, Seg h p xs q ∧ Seg h q ys r := by
  induction xs generalizing p with
  | nil => exact fun hs => ⟨p, .nil p, hs⟩
  | cons x xs ih =>
    rintro (_ | ⟨hp, hn, hs⟩)
    obtain ⟨q, h1, h2⟩ := ih hs
    exact ⟨q, .cons hp hn h1, h2⟩

/-- Every block a segment visits is live and not `NULL`. -/
theorem live (hs : Seg h p xs q) (hx : a ∈ xs) : a ≠ 0 ∧ ∃ n, h.read a = some n := by
  induction hs with
  | nil => cases hx
  | cons hp hn _ ih =>
    rcases List.mem_cons.1 hx with rfl | hx
    · exact ⟨hp, _, hn⟩
    · exact ih hx

/-- **The frame rule**: stores that keep the `next` of every visited block keep the segment. -/
theorem frame (hs : Seg h p xs q)
    (hf : ∀ x ∈ xs, (h'.read x).map TChildClassCounter.next = (h.read x).map TChildClassCounter.next) :
    Seg h' p xs q := by
  induction hs with
  | nil => exact .nil _
  | @cons p q n xs hp hn _ ih =>
    have hp' := hf p (List.mem_cons_self p xs)
    rw [hn] at hp'
    obtain ⟨n', hn', hnext⟩ := Option.map_eq_some'.1 hp'
    exact .cons hp hn' (hnext ▸ ih fun x hx => hf x (List.mem_cons_of_mem p hx))

/-- The frame rule for stores elsewhere: a segment survives any stores that leave its blocks as they were. -/
theorem frame_of_read (hs : Seg h p xs q) (hf : ∀ x ∈ xs, h'.read x = h.read x) : Seg h' p xs q :=
  hs.frame fun x hx => by rw [hf x hx]

end Seg

namespace Chain

theorem zero_iff : Chain h 0 xs ↔ xs = [] := by
  cases xs with
  | nil => exact ⟨fun _ => rfl, fun _ => .nil 0⟩
  | cons x xs => simp only [Chain, Seg.cons_iff, reduceCtorEq, iff_false]; rintro ⟨rfl, h0, -⟩; exact h0 rfl

theorem ne_zero (hc : Chain h p xs) (hne : xs ≠ []) : p ≠ 0 := by
  cases xs with
  | nil => exact absurd rfl hne
  | cons x xs => obtain ⟨rfl, hp, -⟩ := Seg.cons_iff.1 hc; exact hp

/-- A chain is determined by its head. -/
theorem unique (h1 : Chain h p xs) (h2 : Chain h p ys) : xs = ys := by
  induction xs generalizing p ys with
  | nil =>
    obtain rfl := Seg.nil_iff.1 h1
    exact (zero_iff.1 h2).symm
  | cons x xs ih =>
    obtain ⟨rfl, hp, n, hn, hs⟩ := Seg.cons_iff.1 h1
    cases ys with
    | nil => exact absurd (Seg.nil_iff.1 h2) hp
    | cons y ys =>
      obtain ⟨rfl, -, n', hn', hs'⟩ := Seg.cons_iff.1 h2
      obtain rfl : n = n' := Option.some.inj (hn.symm.trans hn')
      rw [ih hs hs']

/-- A chain never revisits a block. -/
theorem nodup (hc : Chain h p xs) : xs.Nodup := by
  induction xs generalizing p with
  | nil => exact List.nodup_nil
  | cons x xs ih =>
    obtain ⟨rfl, hp, n, hn, hs⟩ := Seg.cons_iff.1 hc
    refine List.nodup_cons.2 ⟨fun hx => ?_, ih hs⟩
    obtain ⟨pre, post, rfl⟩ := List.append_of_mem hx
    obtain ⟨q, hpre, hpost⟩ := Seg.of_append hs
    obtain ⟨rfl, -⟩ := Seg.cons_iff.1 hpost
    have := congrArg List.length (unique hc hpost)
    simp only [List.length_cons, List.length_append] at this
    omega

theorem length_le (hc : Chain h p xs) : xs.length ≤ h.size :=
  Region.length_le_size hc.nodup fun _ hx => (Seg.live hc hx).2

end Chain

end HeapStats
