import Mathlib.Data.List.Basic

/-!
# Foundations/Buffers — byte buffers, buffered readers, and connections that serve a cache first

A stream is the list of the items that are still to come.  A buffered reader holds some of them and
its socket the rest, so that whoever goes on reading from the socket alone has to take over what the
reader holds.  A connection with a cache serves the cache, then the socket.
-/

namespace PokrovCore

variable {α : Type*}

/-- A buffer: what was written to it fits its capacity. -/
structure Buffer (α : Type*) where
  capacity : ℕ
  content : List α
  fits : content.length ≤ capacity

/-- A reader over a socket, with what it has read ahead. -/
structure BufReader (α : Type*) where
  buffered : List α
  socket : List α

namespace BufReader

variable (r : BufReader α)

/-- What the reader is still to give. -/
def stream : List α := r.buffered ++ r.socket

/-- Read exactly `k` items, if they come; a read beyond what is held may read `ahead`. -/
def readFull (k ahead : ℕ) : Option (List α × BufReader α) :=
  if k ≤ r.buffered.length then
    some (r.buffered.take k, ⟨r.buffered.drop k, r.socket⟩)
  else
    let missing := k - r.buffered.length
    if r.socket.length < missing then none
    else
      some (r.buffered ++ r.socket.take missing,
        ⟨(r.socket.drop missing).take ahead, (r.socket.drop missing).drop ahead⟩)

/-- **A full read takes the next items off the stream.** -/
theorem readFull_spec {r r' : BufReader α} {k ahead : ℕ} {p : List α}
    (h : r.readFull k ahead = some (p, r')) : p.length = k ∧ p ++ r'.stream = r.stream := by
  unfold readFull at h
  split at h
  · cases h
    rename_i hk
    refine ⟨List.length_take_of_le hk, ?_⟩
    rw [stream, stream, ← List.append_assoc, List.take_append_drop]
  · rename_i hk
    dsimp only at h
    split at h
    · cases h
    · rename_i hmissing
      cases h
      refine ⟨by simp; omega, ?_⟩
      rw [stream, stream, List.take_append_drop, List.append_assoc, List.take_append_drop]

end BufReader

namespace Buffer

/-- A new buffer is empty. -/
def newSize (n : ℕ) : Buffer α := ⟨n, [], Nat.zero_le n⟩

/-- The number of items in the buffer. -/
def len (b : Buffer α) : ℕ := b.content.length

@[simp] theorem len_newSize (n : ℕ) : (newSize n : Buffer α).len = 0 := rfl

/-- Read `k` more items from a reader into the buffer. -/
def readFullFrom (b : Buffer α) (r : BufReader α) (k ahead : ℕ) : Option (Buffer α × BufReader α) :=
  if hfit : b.len + k ≤ b.capacity then
    match h : r.readFull k ahead with
    | none => none
    | some (p, r') =>
      some (⟨b.capacity, b.content ++ p, by
        rw [List.length_append, (BufReader.readFull_spec h).1]
        exact hfit⟩, r')
  else none

theorem readFullFrom_zero (b : Buffer α) (r : BufReader α) (ahead : ℕ) :
    b.readFullFrom r 0 ahead = some (b, r) := by
  have hfit : b.len + 0 ≤ b.capacity := b.fits
  unfold readFullFrom
  rw [dif_pos hfit]
  split
  · rename_i h
    cases h
  · rename_i p r' h
    cases h
    simp

end Buffer

/-- A connection that serves a cache before its socket. -/
structure CachedConn (α : Type*) where
  cache : List α
  socket : List α

namespace CachedConn

/-- What the connection is still to give. -/
def stream (c : CachedConn α) : List α := c.cache ++ c.socket

/-- Read at most `n` items: from the cache while it has some, then what the socket has, of which
`arrived` may be there. -/
def read (c : CachedConn α) (n arrived : ℕ) : List α × CachedConn α :=
  if c.cache ≠ [] then (c.cache.take n, { c with cache := c.cache.drop n })
  else (c.socket.take (min n arrived), { c with socket := c.socket.drop (min n arrived) })

theorem read_stream (c : CachedConn α) (n arrived : ℕ) :
    (c.read n arrived).1 ++ (c.read n arrived).2.stream = c.stream := by
  unfold read
  split
  · rw [stream, stream, ← List.append_assoc, List.take_append_drop]
  · rename_i h
    rw [stream, stream, not_not.mp h, List.nil_append, List.nil_append, List.take_append_drop]

/-- Read again and again; what was read comes first. -/
def reads (c : CachedConn α) : List (ℕ × ℕ) → List α × CachedConn α
  | [] => ([], c)
  | (n, arrived) :: l =>
    let r := (c.read n arrived).2.reads l
    ((c.read n arrived).1 ++ r.1, r.2)

/-- **What was read and what is left is the stream.** -/
theorem reads_stream : ∀ (l : List (ℕ × ℕ)) (c : CachedConn α),
    (c.reads l).1 ++ (c.reads l).2.stream = c.stream
  | [], _ => rfl
  | (n, arrived) :: l, c => by
    rw [reads, List.append_assoc, reads_stream l, read_stream]

/-- Two large reads give the whole stream. -/
theorem reads_all (c : CachedConn α) : ∃ l, (c.reads l).1 = c.stream := by
  have hcache : c.cache.take c.stream.length = c.cache :=
    List.take_of_length_le (by simp [stream])
  have hsocket : c.socket.take c.stream.length = c.socket :=
    List.take_of_length_le (by simp [stream])
  have hrest : c.cache.drop c.stream.length = [] := List.drop_of_length_le (by simp [stream])
  refine ⟨[(c.stream.length, c.stream.length), (c.stream.length, c.stream.length)], ?_⟩
  by_cases h : c.cache = []
  · simp [reads, read, h, stream]
  · simp only [reads, read, ne_eq, h, not_false_eq_true, if_true, hcache, hrest, not_true_eq_false,
      if_false, Nat.min_self, hsocket, List.append_nil]
    rfl

/-- **A connection delivers a stream**: whatever is read is a beginning of it, and all of it is
read in the end. -/
def Delivers (c : CachedConn α) (l : List α) : Prop :=
  (∀ rs, (c.reads rs).1 <+: l) ∧ ∃ rs, (c.reads rs).1 = l

theorem delivers_iff {c : CachedConn α} {l : List α} : c.Delivers l ↔ c.stream = l := by
  constructor
  · rintro ⟨hbegin, rs, hrs⟩
    obtain ⟨all, hall⟩ := c.reads_all
    have hle : c.stream <+: l := hall ▸ hbegin all
    have hge : l <+: c.stream := ⟨(c.reads rs).2.stream, hrs ▸ c.reads_stream rs⟩
    exact hle.eq_of_length (Nat.le_antisymm hle.length_le hge.length_le)
  · rintro rfl
    exact ⟨fun rs => ⟨_, reads_stream rs c⟩, c.reads_all⟩

end CachedConn

end PokrovCore
