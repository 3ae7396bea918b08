import Matchbook.Types

namespace Matchbook

/-! # Chunked node pool

Nodes are addresses; the pool hands them out from its free list and takes a
new chunk when the list is empty. `free` lists the free nodes from the back of
the source's vector, so the next one allocated comes first. -/

abbrev Ptr := Nat

def chunkSize : Nat := 65536

structure Pool where
  chunks : Nat
  free : List Ptr

namespace Pool

def capacity (pool : Pool) : Nat := pool.chunks * chunkSize

def inUse (pool : Pool) : Nat := pool.capacity - pool.free.length

def grow (pool : Pool) : Pool where
  chunks := pool.chunks + 1
  free := List.range' pool.capacity chunkSize ++ pool.free

/-- Grow until the pool has room for `n` nodes. -/
def reserve (n : Nat) : Pool :=
  (List.range ((n + (chunkSize - 1)) / chunkSize)).foldl (fun pool _ => pool.grow)
    { chunks := 0, free := [] }

def alloc (pool : Pool) : Ptr × Pool :=
  match pool.free with
  | node :: rest => (node, { pool with free := rest })
  | [] =>
      let grown := pool.grow
      (grown.free.headD 0, { grown with free := grown.free.tail })

def release (pool : Pool) (node : Ptr) : Pool :=
  { pool with free := node :: pool.free }

/-! ## Accounting

The free nodes and the live ones are together all nodes of all chunks. -/

structure Accounts (pool : Pool) (live : List Ptr) : Prop where
  nodup : (live ++ pool.free).Nodup
  inside : ∀ node ∈ live ++ pool.free, node < pool.capacity
  count : live.length + pool.free.length = pool.capacity

theorem Accounts.inUse {pool : Pool} {live : List Ptr} (accounts : pool.Accounts live) :
    pool.inUse = live.length := by
  have := accounts.count
  unfold Pool.inUse
  lia

theorem Accounts.perm {pool : Pool} {live live' : List Ptr}
    (accounts : pool.Accounts live) (perm : live.Perm live') : pool.Accounts live' where
  nodup := (perm.append_right pool.free).nodup_iff.mp accounts.nodup
  inside node member := accounts.inside node ((perm.append_right pool.free).mem_iff.mpr member)
  count := perm.length_eq ▸ accounts.count

theorem Accounts.grow {pool : Pool} {live : List Ptr} (accounts : pool.Accounts live) :
    pool.grow.Accounts live := by
  have larger : pool.grow.capacity = pool.capacity + chunkSize := by
    simp [Pool.grow, capacity, Nat.add_mul]
  have range : ∀ node ∈ List.range' pool.capacity chunkSize,
      pool.capacity ≤ node ∧ node < pool.capacity + chunkSize := by
    simp [List.mem_range'_1]
  have old := accounts.inside
  have parts := List.nodup_append.mp accounts.nodup
  simp only [List.mem_append] at old
  refine ⟨?_, ?_, ?_⟩
  · rw [Pool.grow, List.nodup_append, List.nodup_append]
    refine ⟨parts.1, ⟨List.nodup_range', parts.2.1, ?_⟩, ?_⟩
    · intro fresh inRange node isFree equal
      have := range fresh inRange
      have := old node (.inr isFree)
      lia
    · intro node isLive other member equal
      have := old node (.inl isLive)
      rcases List.mem_append.mp member with inRange | isFree
      · have := range other inRange
        lia
      · exact parts.2.2 node isLive other isFree equal
  · intro node member
    rw [larger]
    simp only [Pool.grow, List.mem_append] at member
    rcases member with isLive | inRange | isFree
    · have := old node (.inl isLive)
      lia
    · exact (range node inRange).2
    · have := old node (.inr isFree)
      lia
  · rw [larger]
    have := accounts.count
    simp only [Pool.grow, List.length_append, List.length_range']
    lia

theorem Accounts.alloc {pool : Pool} {live : List Ptr} (accounts : pool.Accounts live) :
    pool.alloc.2.Accounts (pool.alloc.1 :: live) := by
  have pop : ∀ {pool : Pool} {node : Ptr} {rest : List Ptr}, pool.Accounts live →
      pool.free = node :: rest →
      Accounts { pool with free := rest } (node :: live) := by
    intro pool node rest accounts isFree
    have perm : (live ++ node :: rest).Perm (node :: live ++ rest) := List.perm_middle
    refine ⟨?_, ?_, ?_⟩
    · exact perm.nodup_iff.mp (isFree ▸ accounts.nodup)
    · intro other member
      exact accounts.inside other (by rw [isFree]; exact perm.mem_iff.mpr member)
    · have := accounts.count
      rw [isFree] at this
      simp only [List.length_cons] at this ⊢
      unfold capacity at this ⊢
      simp only
      lia
  cases isFree : pool.free with
  | cons node rest => simpa [Pool.alloc, isFree] using pop accounts isFree
  | nil =>
      have grown := accounts.grow
      cases isFree' : pool.grow.free with
      | nil => simp [Pool.grow, chunkSize] at isFree'
      | cons node rest => simpa [Pool.alloc, isFree, isFree'] using pop grown isFree'

theorem Accounts.fresh {pool : Pool} {live : List Ptr} (accounts : pool.Accounts live) :
    pool.alloc.1 ∉ live := by
  have nodup := accounts.alloc.nodup
  rw [List.cons_append, List.nodup_cons] at nodup
  exact fun member => nodup.1 (by simp [member])

theorem Accounts.release {pool : Pool} {live : List Ptr} {node : Ptr}
    (accounts : pool.Accounts (node :: live)) : (pool.release node).Accounts live := by
  have perm : (node :: live ++ pool.free).Perm (live ++ node :: pool.free) :=
    List.perm_middle.symm
  refine ⟨perm.nodup_iff.mp accounts.nodup, ?_, ?_⟩
  · exact fun other member => accounts.inside other (perm.mem_iff.mpr member)
  · have := accounts.count
    simp only [List.length_cons, Pool.release, capacity] at this ⊢
    lia

theorem accounts_reserve (n : Nat) : (reserve n).Accounts [] := by
  unfold reserve
  have start : Accounts { chunks := 0, free := [] } [] := ⟨by simp, by simp, by simp [capacity]⟩
  generalize List.range ((n + (chunkSize - 1)) / chunkSize) = rounds
  revert start
  generalize ({ chunks := 0, free := [] } : Pool) = pool
  induction rounds generalizing pool with
  | nil => exact id
  | cons _ rounds induction => exact fun start => induction pool.grow start.grow

end Pool

end Matchbook
