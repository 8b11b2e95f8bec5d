import Mathlib.Data.List.Basic

namespace P2PFFmpeg.Library

structure BoundedQueue (α : Type) where
  elems : List α
  capacity : Nat
  fits : elems.length ≤ capacity

namespace BoundedQueue

variable {α : Type} (q : BoundedQueue α)

def empty (capacity : Nat) : BoundedQueue α := ⟨[], capacity, Nat.zero_le _⟩

def room : Nat := q.capacity - q.elems.length

def push (xs : List α) (h : xs.length ≤ q.room) : BoundedQueue α where
  elems := q.elems ++ xs
  capacity := q.capacity
  fits := by
    have hfits := q.fits
    rw [room] at h
    rw [List.length_append]
    omega

def drop (n : Nat) : BoundedQueue α where
  elems := q.elems.drop n
  capacity := q.capacity
  fits := Nat.le_trans (by simp) q.fits

def widen (inc : Nat) : BoundedQueue α :=
  ⟨q.elems, q.capacity + inc, Nat.le_add_right_of_le q.fits⟩

def clear : BoundedQueue α := empty q.capacity

@[simp] theorem push_elems {xs : List α} (h : xs.length ≤ q.room) :
    (q.push xs h).elems = q.elems ++ xs := rfl

@[simp] theorem push_capacity {xs : List α} (h : xs.length ≤ q.room) :
    (q.push xs h).capacity = q.capacity := rfl

@[simp] theorem drop_elems (n : Nat) : (q.drop n).elems = q.elems.drop n := rfl

@[simp] theorem drop_capacity (n : Nat) : (q.drop n).capacity = q.capacity := rfl

@[simp] theorem widen_elems (inc : Nat) : (q.widen inc).elems = q.elems := rfl

@[simp] theorem widen_capacity (inc : Nat) : (q.widen inc).capacity = q.capacity + inc := rfl

@[simp] theorem clear_elems : q.clear.elems = [] := rfl

@[simp] theorem clear_capacity : q.clear.capacity = q.capacity := rfl

theorem length_add_room : q.elems.length + q.room = q.capacity :=
  Nat.add_sub_cancel' q.fits

theorem room_widen (inc : Nat) : (q.widen inc).room = q.room + inc := by
  have hfits := q.fits
  simp only [room, widen_elems, widen_capacity]
  omega

end BoundedQueue

end P2PFFmpeg.Library
