import OperatingSys.Threads.Scheduler
import OperatingSys.Lib.LinkedList

/-!
# The mutex (threads.c)

`pthread_mutex_lock` and `pthread_mutex_unlock` up to their call of `schedule`, and the queue
of waiting threads that their linked list stands for. The result `none` stands for an access
through a null or freed pointer.
-/

namespace OperatingSys.Threads

open LinkedList

/-- `struct my_mutex_t`. -/
structure Mutex where
  locked : Int
  blockedThreadsHead : Option Nat
  blockedThreadsTail : Option Nat

def pthreadMutexInit : Mutex where
  locked := 0
  blockedThreadsHead := none
  blockedThreadsTail := none

/-- How far a call gets by itself: to its end, or to its call of `schedule`. -/
inductive Progress where
  | returns (value : Int)
  | schedules
  deriving DecidableEq

/-- The current thread joins the list of blocked threads. -/
def enqueue (p : Process) (m : Mutex) : Option (Process × Mutex) :=
  let n := p.next
  let node : Node := { tid := p.current, next := none }
  let p := p.malloc
  match m.blockedThreadsHead, m.blockedThreadsTail with
  | none, _ => some (p.setNode n (some node), { m with blockedThreadsHead := some n })
  | some head, none =>
    match p.nodes head with
    | none => none
    | some first =>
      some ((p.setNode head (some { first with next := some n })).setNode n (some node),
        { m with blockedThreadsTail := some n })
  | some _, some oldTail =>
    -- a node is allocated for `old_tail` and forgotten at once
    let p := p.malloc
    match p.nodes oldTail with
    | none => none
    | some last =>
      some ((p.setNode n (some node)).setNode oldTail (some { last with next := some n }),
        { m with blockedThreadsTail := some n })

/-- `pthread_mutex_lock`. After `schedule` it returns -1. -/
def pthreadMutexLock (p : Process) (m : Mutex) : Option (Process × Mutex × Progress) :=
  let p := p.lock
  if m.locked = 0 then
    some ((p.setStatus p.current .ready).unlock, { m with locked := 1 }, .returns 0)
  else
    match enqueue (p.setStatus p.current .blocked) m with
    | none => none
    | some (p, m) => some (p, m, .schedules)

/-- `pthread_mutex_unlock`. After `schedule` it returns 0. -/
def pthreadMutexUnlock (p : Process) (m : Mutex) : Option (Process × Mutex × Progress) :=
  let p := p.lock
  match m.blockedThreadsHead with
  | none => some (p.unlock, { m with locked := 0 }, .returns 0)
  | some head =>
    match p.nodes head with
    | none => none
    | some first =>
      let p := (p.setStatus first.tid .ready).setNode head none
      let m := { m with blockedThreadsHead := first.next }
      let m := if first.next = none then { m with blockedThreadsTail := none } else m
      let m := if m.blockedThreadsHead = none then { m with locked := 0 } else m
      some (p.unlock, m, .schedules)

/-! ### The queue -/

/-- The nodes of the waiting threads, in order of arrival. -/
structure Queued (p : Process) (m : Mutex) (cells : List (Nat × Tid)) : Prop where
  linked : Linked Node.tid Node.next p.nodes m.blockedThreadsHead cells
  nodup : (cells.map Prod.fst).Nodup
  allocated : ∀ cell ∈ cells, cell.1 < p.next
  tail : (m.blockedThreadsTail = none ∧ cells.length ≤ 1) ∨
    ∃ front cell, cells = front ++ [cell] ∧ m.blockedThreadsTail = some cell.1

theorem queued_init (p : Process) : Queued p pthreadMutexInit [] where
  linked := rfl
  nodup := List.nodup_nil
  allocated := fun _ member => absurd member List.not_mem_nil
  tail := Or.inl ⟨rfl, Nat.zero_le 1⟩

section Queue

variable {p : Process} {m : Mutex}

/-- A queue changes with its nodes and the pointers to them only. -/
theorem Queued.congr {cells : List (Nat × Tid)} {p' : Process} {m' : Mutex}
    (queued : Queued p m cells) (nodes : ∀ cell ∈ cells, p'.nodes cell.1 = p.nodes cell.1)
    (next : p.next ≤ p'.next) (head : m'.blockedThreadsHead = m.blockedThreadsHead)
    (tail : m'.blockedThreadsTail = m.blockedThreadsTail) : Queued p' m' cells := by
  refine ⟨?_, queued.nodup, fun cell member => Nat.lt_of_lt_of_le (queued.allocated cell member) next,
    ?_⟩
  · rw [head]
    exact queued.linked.congr nodes
  · rw [tail]
    exact queued.tail

/-- A longer list: a new last node, to which the old last one points. -/
theorem Queued.append {front : List (Nat × Tid)} {last : Nat × Tid} {node : Node}
    (queued : Queued p m (front ++ [last])) (here : p.nodes last.1 = some node) {p' : Process}
    {m' : Mutex} {tid : Tid} (head : m'.blockedThreadsHead = m.blockedThreadsHead)
    (tail : m'.blockedThreadsTail = some p.next) (later : p.next < p'.next)
    (nodes : ∀ a, p'.nodes a =
      if a = p.next then some ⟨tid, none⟩
      else if a = last.1 then some { node with next := some p.next }
      else p.nodes a) : Queued p' m' (front ++ [last] ++ [(p.next, tid)]) := by
  -- the new node lies past all that are in the list
  have old : ∀ cell ∈ front ++ [last], cell.1 ≠ p.next := fun cell member =>
    Nat.ne_of_lt (queued.allocated cell member)
  have distinct := queued.nodup
  rw [List.map_append, List.nodup_append] at distinct
  obtain ⟨node', here', holds⟩ := queued.linked.lookup (List.mem_append_right front List.mem_cons_self)
  rw [here, Option.some.injEq] at here'
  refine ⟨?_, ?_, fun cell member => ?_, Or.inr ⟨front ++ [last], _, rfl, tail⟩⟩
  · rw [head]
    refine queued.linked.append (fun cell member => ?_)
      ⟨{ node with next := some p.next }, ?_, here' ▸ holds, rfl⟩ ⟨⟨tid, none⟩, ?_, rfl, rfl⟩
    · rw [nodes, if_neg (old cell (List.mem_append_left _ member)), if_neg]
      exact distinct.2.2 cell.1 (List.mem_map_of_mem member) last.1 (by simp)
    · rw [nodes, if_neg (old last (by simp)), if_pos rfl]
    · rw [nodes, if_pos rfl]
  · rw [List.map_append, List.nodup_append]
    refine ⟨queued.nodup, by simp, fun a member b single => ?_⟩
    rw [List.map_singleton, List.mem_singleton] at single
    obtain ⟨cell, inside, rfl⟩ := List.mem_map.mp member
    rw [single]
    exact old cell inside
  · rcases List.mem_append.mp member with before | new
    · exact Nat.lt_trans (queued.allocated cell before) later
    · rw [List.mem_singleton.mp new]
      exact later

/-- What joining the list leaves alone. -/
structure Joined (p : Process) (m : Mutex) (p' : Process) (m' : Mutex) : Prop where
  status : p'.status = p.status
  current : p'.current = p.current
  locked : m'.locked = m.locked

theorem enqueue_spec {cells : List (Nat × Tid)} (queued : Queued p m cells) :
    ∃ p' m', enqueue p m = some (p', m') ∧ Joined p m p' m' ∧
      Queued p' m' (cells ++ [(p.next, p.current)]) := by
  rcases List.eq_nil_or_concat cells with rfl | ⟨front, last, rfl⟩
  · have head : m.blockedThreadsHead = none := queued.linked
    refine ⟨p.malloc.setNode p.next (some ⟨p.current, none⟩),
      { m with blockedThreadsHead := some p.next }, by simp only [enqueue, head], ⟨rfl, rfl, rfl⟩,
      ?_, by simp, ?_, ?_⟩
    · exact ⟨rfl, ⟨p.current, none⟩, by simp [Process.setNode], rfl, rfl⟩
    · intro cell member
      rw [List.mem_singleton.mp member]
      exact Nat.lt_succ_self p.next
    · rcases queued.tail with ⟨none_, -⟩ | ⟨front, cell, eq, -⟩
      · exact Or.inl ⟨none_, Nat.le_refl 1⟩
      · simp at eq
  · rw [List.concat_eq_append] at *
    obtain ⟨node, here, -⟩ := queued.linked.lookup (List.mem_append_right front List.mem_cons_self)
    have apart : last.1 ≠ p.next := Nat.ne_of_lt (queued.allocated last (by simp))
    obtain ⟨head, points⟩ : ∃ head, m.blockedThreadsHead = some head := by
      cases front with
      | nil => exact ⟨_, queued.linked.1⟩
      | cons first _ => exact ⟨_, queued.linked.1⟩
    rcases queued.tail with ⟨none_, short⟩ | ⟨front', cell, eq, tail⟩
    · -- the list has one node, its head
      have empty : front = [] := by
        rw [List.length_append, List.length_singleton] at short
        exact List.length_eq_zero_iff.mp (by omega)
      subst empty
      have first : last.1 = head := Option.some.inj (queued.linked.1.symm.trans points)
      refine ⟨(p.malloc.setNode last.1 (some { node with next := some p.next })).setNode p.next
          (some ⟨p.current, none⟩), { m with blockedThreadsTail := some p.next },
        by simp only [enqueue, points, none_, Process.malloc, ← first, here],
        ⟨rfl, rfl, rfl⟩, queued.append here rfl rfl (Nat.lt_succ_self _) fun a => ?_⟩
      simp only [Process.setNode, Process.malloc, Function.update_apply]
    -- the tail is the last node of the list
    · obtain ⟨rfl, same⟩ := List.append_inj' eq rfl
      rw [List.singleton_inj] at same
      subst same
      refine ⟨(p.malloc.malloc.setNode p.next (some ⟨p.current, none⟩)).setNode last.1
          (some { node with next := some p.next }), { m with blockedThreadsTail := some p.next },
        by simp only [enqueue, points, tail, Process.malloc, here],
        ⟨rfl, rfl, rfl⟩, queued.append here rfl rfl (Nat.lt_succ_of_lt (Nat.lt_succ_self _))
          fun a => ?_⟩
      simp only [Process.setNode, Process.malloc, Function.update_apply]
      by_cases new : a = p.next
      · rw [if_pos new, if_neg (fun eq => apart (eq.symm.trans new)), if_pos new]
      · rw [if_neg new, if_neg new]

/-- Handing over: the first waiting thread becomes ready and leaves the list. -/
theorem pthreadMutexUnlock_spec {cell : Nat × Tid} {rest : List (Nat × Tid)}
    (queued : Queued p m (cell :: rest)) :
    ∃ p' m', pthreadMutexUnlock p m = some (p', m', .schedules) ∧
      p'.status = Function.update p.status cell.2 .ready ∧ p'.current = p.current ∧
      m'.locked = (if rest = [] then 0 else m.locked) ∧ Queued p' m' rest := by
  obtain ⟨points, node, here, holds, tail⟩ := queued.linked
  obtain ⟨absent, nodup⟩ := List.nodup_cons.mp queued.nodup
  -- whether a thread remains can be read off the node that leaves
  have last : node.next = none ↔ rest = [] := by
    cases rest with
    | nil => simp only [iff_true]; exact tail
    | cons second _ => simp [tail.1]
  have kept : ∀ other ∈ rest, other.1 ≠ cell.1 := fun other member eq =>
    absent (eq ▸ List.mem_map_of_mem member)
  have ran : ∃ m', pthreadMutexUnlock p m =
      some (((p.lock.setStatus node.tid .ready).setNode cell.1 none).unlock, m', .schedules) ∧
      m'.blockedThreadsHead = node.next ∧
      m'.blockedThreadsTail = (if rest = [] then none else m.blockedThreadsTail) ∧
      m'.locked = (if rest = [] then 0 else m.locked) := by
    refine ⟨_, by simp only [pthreadMutexUnlock, points, Process.lock, here]; rfl, ?_⟩
    by_cases empty : rest = []
    · simp [last.mpr empty, empty]
    · simp [empty, last]
  obtain ⟨m', ran, head', tail', locked'⟩ := ran
  refine ⟨_, m', ran, ?_, rfl, locked', ?_⟩
  · simp only [Process.unlock, Process.setNode, Process.setStatus, holds]
    rfl
  · refine ⟨?_, nodup, fun other member => queued.allocated other (List.mem_cons_of_mem _ member),
      ?_⟩
    · rw [head']
      exact tail.congr fun other member => Function.update_of_ne (kept other member) _ _
    · rw [tail']
      by_cases empty : rest = []
      · exact Or.inl ⟨if_pos empty, by simp [empty]⟩
      · right
        rw [if_neg empty]
        -- the tail pointer stays where it is, at the end of a list of two nodes or more
        rcases queued.tail with ⟨-, short⟩ | ⟨front, final, eq, named⟩
        · rw [List.length_cons] at short
          exact absurd (List.length_eq_zero_iff.mp (by omega)) empty
        · cases front with
          | nil =>
            simp only [List.nil_append, List.cons.injEq] at eq
            exact absurd eq.2 empty
          | cons first front =>
            simp only [List.cons_append, List.cons.injEq] at eq
            exact ⟨front, final, eq.2, named⟩

/-! ### What a call leaves alone -/

theorem enqueue_frame {p' : Process} {m' : Mutex} (joined : enqueue p m = some (p', m')) :
    p.next ≤ p'.next ∧ ∀ a, a ≠ p.next → m.blockedThreadsHead ≠ some a →
      m.blockedThreadsTail ≠ some a → p'.nodes a = p.nodes a := by
  unfold enqueue at joined
  dsimp only at joined
  split at joined
  · cases joined
    exact ⟨Nat.le_succ _, fun a new _ _ => Function.update_of_ne new _ _⟩
  next head points _ =>
    split at joined
    · simp at joined
    · cases joined
      refine ⟨Nat.le_succ _, fun a new apart _ => ?_⟩
      rw [points, Ne, Option.some.injEq] at apart
      simp [Process.setNode, Process.malloc, new, Ne.symm apart]
  next head tail _ ends =>
    split at joined
    · simp at joined
    · cases joined
      refine ⟨Nat.le_add_right p.next 2, fun a new _ apart => ?_⟩
      rw [ends, Ne, Option.some.injEq] at apart
      simp [Process.setNode, Process.malloc, new, Ne.symm apart]

theorem enqueue_kept {p' : Process} {m' : Mutex} (joined : enqueue p m = some (p', m')) :
    p'.masked = p.masked ∧ m'.locked = m.locked := by
  unfold enqueue at joined
  dsimp only at joined
  split at joined
  · cases joined
    exact ⟨rfl, rfl⟩
  · split at joined
    · simp at joined
    · cases joined
      exact ⟨rfl, rfl⟩
  · split at joined
    · simp at joined
    · cases joined
      exact ⟨rfl, rfl⟩

theorem pthreadMutexUnlock_frame {p' : Process} {m' : Mutex} {progress : Progress}
    (ran : pthreadMutexUnlock p m = some (p', m', progress)) :
    p'.next = p.next ∧ ∀ a, m.blockedThreadsHead ≠ some a → p'.nodes a = p.nodes a := by
  unfold pthreadMutexUnlock at ran
  dsimp only at ran
  split at ran
  · cases ran
    exact ⟨rfl, fun _ _ => rfl⟩
  next head points =>
    split at ran
    · simp at ran
    · cases ran
      refine ⟨rfl, fun a apart => ?_⟩
      rw [points, Ne, Option.some.injEq] at apart
      exact Function.update_of_ne (Ne.symm apart) _ _

/-- The pointers of a mutex lead to nodes of waiting threads. -/
theorem Queued.head_mem {cells : List (Nat × Tid)} (queued : Queued p m cells) {a : Nat}
    (points : m.blockedThreadsHead = some a) : ∃ cell ∈ cells, cell.1 = a := by
  cases cells with
  | nil => exact absurd (queued.linked.symm.trans points) (by simp)
  | cons cell rest =>
    exact ⟨cell, List.mem_cons_self, Option.some.inj (queued.linked.1.symm.trans points)⟩

theorem Queued.tail_mem {cells : List (Nat × Tid)} (queued : Queued p m cells) {a : Nat}
    (points : m.blockedThreadsTail = some a) : ∃ cell ∈ cells, cell.1 = a := by
  rcases queued.tail with ⟨absent, -⟩ | ⟨front, cell, rfl, named⟩
  · simp [absent] at points
  · exact ⟨cell, by simp, Option.some.inj (named.symm.trans points)⟩

end Queue

end OperatingSys.Threads
