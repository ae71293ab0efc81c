import PokrovCore.Foundations.BinaryHeap
import PokrovCore.Foundations.Machine

/-!
# Xhttp/UploadQueue — packets in any order, bytes in one

Pushes put packets into a channel; a read takes them out into a heap ordered by their numbers, and
returns the bytes of the packet whose turn it is.  A packet that is not read to its end goes back
into the heap with the rest of its payload, and there it stands among the copies of the same number.
A read begins where it is called and at each packet it waits for; pushes and a close may come between.
One goroutine reads.
-/

namespace PokrovCore.Xhttp

open BinaryHeap

/-! ## The queue -/

/-- A packet: a whole reader, or a payload under a number. -/
structure Packet where
  reader : Option ℕ
  payload : List UInt8
  seq : UInt64
  deriving DecidableEq

/-- What the heap compares. -/
def Packet.number (p : Packet) : ℕ := p.seq.toNat

/-- Where a read stands: not called, or waiting for its first or for a further packet with a buffer
of this length. -/
inductive ReadPc
  | idle
  | first (n : ℕ)
  | further (n : ℕ)
  deriving DecidableEq

/-- **`uploadQueue`.**  `pushedPackets` holds the channel and the packet of a push that waits for it;
`closing` is a close under way and `drained` a closed channel.  `output` is what the reads
returned. -/
structure UploadQueue where
  reader : Option ℕ
  nomore : Bool
  pushedPackets : List Packet
  heap : List Packet
  nextSeq : UInt64
  closed : Bool
  maxPackets : ℕ
  closing : Bool
  drained : Bool
  pc : ReadPc
  output : List UInt8
  deriving DecidableEq

/-- `NewUploadQueue` -/
def newUploadQueue (maxPackets : ℕ) : UploadQueue where
  reader := none
  nomore := false
  pushedPackets := []
  heap := []
  nextSeq := 0
  closed := false
  maxPackets := maxPackets
  closing := false
  drained := false
  pc := .idle
  output := []

/-- A read is given the length of its buffer; what a whole reader gives is the event's. -/
inductive UploadEvent
  | push (p : Packet)
  | read (n : ℕ) (given : List UInt8)
  | receive (given : List UInt8)
  | close
  | closeDrain
  | closeEnd

inductive UploadOutput
  | pushed (ok : Bool)
  | returned (bytes : List UInt8)
  | eof
  | tooLarge
  | waiting
  | closed
  deriving DecidableEq

namespace UploadQueue

variable (q : UploadQueue)

/-- `writeCloseMutex` is held: by a close, or by a push that waits for the channel. -/
def locked : Bool := q.closing || decide (q.maxPackets < q.pushedPackets.length)

/-- A read returns bytes. -/
def returns (bytes : List UInt8) : UploadQueue × UploadOutput :=
  ({ q with pc := .idle, output := q.output ++ bytes }, .returned bytes)

/-- **The loop of `Read`**; a turn takes a packet out of the heap. -/
def readLoop (n : ℕ) : ℕ → UploadQueue → UploadQueue × UploadOutput
  | 0, q => q.returns []
  | fuel + 1, q =>
    match pop Packet.number q.heap with
    | none => q.returns []
    | some (packet, heap) =>
      if packet.seq = q.nextSeq then
        let bytes := packet.payload.take n
        if n < packet.payload.length then
          -- partial read
          { q with
            heap := push Packet.number heap { packet with payload := packet.payload.drop n } }.returns
            bytes
        else { q with heap, nextSeq := packet.seq + 1 }.returns bytes
      else if packet.seq > q.nextSeq then
        -- misordered packet
        if heap.length > q.maxPackets then ({ q with heap, pc := .idle }, .tooLarge)
        else ({ q with heap := push Packet.number heap packet, pc := .further n }, .waiting)
      else readLoop n fuel { q with heap }

/-- The loop, from a heap. -/
def runLoop (n : ℕ) (heap : List Packet) : UploadQueue × UploadOutput :=
  readLoop n heap.length { q with heap }

/-- **One step of the queue.** -/
def step (q : UploadQueue) : UploadEvent → Option (UploadQueue × UploadOutput)
  | .push p =>
    if q.locked then none
    else if q.closed || q.nomore then some (q, .pushed false)
    else
      some ({ q with
        nomore := p.reader.isSome
        pushedPackets := q.pushedPackets ++ [p] }, .pushed true)
  | .read n given =>
    if q.pc ≠ .idle then none
    else if q.reader.isSome then some (q.returns (given.take n))
    else if q.closed then some (q, .eof)
    else if q.heap = [] then some ({ q with pc := .first n }, .waiting)
    else some (q.runLoop n q.heap)
  | .receive given =>
    match q.pc, q.pushedPackets with
    | .idle, _ => none
    | _, [] => if q.drained then some ({ q with pc := .idle }, .eof) else none
    | .first n, p :: pushedPackets =>
      if p.reader.isSome then
        some ({ q with reader := p.reader, pushedPackets }.returns (given.take n))
      else some ({ q with pushedPackets }.runLoop n (push Packet.number q.heap p))
    | .further n, p :: pushedPackets =>
      some ({ q with pushedPackets }.runLoop n (push Packet.number q.heap p))
  | .close =>
    if q.locked then none
    else if q.closed then some (q, .closed)
    else some ({ q with closed := true, closing := true }, .waiting)
  | .closeDrain =>
    if q.closing then
      match q.pushedPackets with
      | [] => none
      | p :: pushedPackets =>
        some ({ q with reader := p.reader.or q.reader, pushedPackets }, .waiting)
    else none
  | .closeEnd =>
    if q.closing && q.pushedPackets.isEmpty then
      some ({ q with closing := false, drained := true }, .closed)
    else none

end UploadQueue

/-- The queue as a machine. -/
def uploadQueue : Machine UploadQueue UploadEvent UploadOutput where
  step := UploadQueue.step

/-! ## What the reads return -/

section stream

variable (payload : UInt64 → List UInt8)

/-- The payloads of the first numbers, one after another. -/
def stream (n : ℕ) : List UInt8 := (List.range n).flatMap fun i => payload (UInt64.ofNat i)

theorem stream_succ (n : ℕ) : stream payload (n + 1) = stream payload n ++ payload (UInt64.ofNat n) := by
  simp [stream, List.range_succ]

theorem stream_mono {m n : ℕ} (h : m ≤ n) : stream payload m <+: stream payload n := by
  induction h with
  | refl => exact List.prefix_refl _
  | step _ ih => exact ih.trans ⟨_, (stream_succ payload _).symm⟩

/-- A packet carries the payload of its number. -/
def Packet.Full (p : Packet) : Prop := p.reader = none ∧ p.payload = payload p.seq

/-- **The next packet has not been begun**: every packet is whole, and the reads returned the
payloads before it. -/
structure Fresh (heap : List Packet) (output : List UInt8) (count : ℕ) : Prop where
  full : ∀ p ∈ heap, p.Full payload
  output_eq : output = stream payload count

/-- **The next packet has been begun**: one packet of its number is in the heap, with what is left of
the payload, and the reads returned the rest of it. -/
structure Begun (heap : List Packet) (nextSeq : UInt64) (output : List UInt8) (count : ℕ)
    (a : Packet) (others : List Packet) : Prop where
  perm : heap.Perm (a :: others)
  seq_eq : a.seq = nextSeq
  full : ∀ p ∈ others, p.Full payload
  alone : ∀ p ∈ others, p.seq ≠ nextSeq
  output_eq : ∃ part, output = stream payload count ++ part ∧ part ++ a.payload = payload nextSeq

/-- The heap holds what the reads have not returned. -/
def Continues (heap : List Packet) (nextSeq : UInt64) (output : List UInt8) (count : ℕ) : Prop :=
  Fresh payload heap output count ∨ ∃ a others, Begun payload heap nextSeq output count a others

/-- **A read is safe for a heap**: its buffer takes nothing or all of the next packet, or the heap
has no second copy of it. -/
def SafeRead (heap : List Packet) (nextSeq : UInt64) (n : ℕ) : Prop :=
  n = 0 ∨ heap.countP (·.seq == nextSeq) ≤ 1 ∨
    ∀ p ∈ heap, p.seq = nextSeq → p.payload.length ≤ n

/-- **The queue continues the stream.** -/
structure QueueInv (q : UploadQueue) : Prop where
  reader : q.reader = none
  pushed : ∀ p ∈ q.pushedPackets, p.Full payload
  ordered : Ordered (keys Packet.number q.heap)
  continues : ∃ count, q.nextSeq = UInt64.ofNat count ∧
    Continues payload q.heap q.nextSeq q.output count
  first : ∀ n, q.pc = .first n → q.heap = []
  further : ∀ n, q.pc = .further n → ∀ p ∈ q.heap, q.nextSeq < p.seq

end stream

section heap

variable {payload : UInt64 → List UInt8} {heap rest others : List Packet} {nextSeq : UInt64}
  {output : List UInt8} {count n : ℕ} {a packet : Packet}

/-- The first packet of the heap, if it is the one that was begun. -/
theorem Begun.eq_of_seq (h : Begun payload heap nextSeq output count a others)
    (hperm : heap.Perm (packet :: rest)) (hseq : packet.seq = nextSeq) :
    packet = a ∧ rest.Perm others := by
  have hmem : packet ∈ a :: others := h.perm.subset (hperm.symm.subset List.mem_cons_self)
  have heq : packet = a := by
    obtain heq | hin := List.mem_cons.mp hmem
    · exact heq
    · exact absurd hseq (h.alone packet hin)
  subst heq
  exact ⟨rfl, List.Perm.cons_inv (hperm.symm.trans h.perm)⟩

/-- The first packet of the heap, if it is another. -/
theorem Begun.pop_other (h : Begun payload heap nextSeq output count a others)
    (hperm : heap.Perm (packet :: rest)) (hseq : packet.seq ≠ nextSeq) :
    Begun payload rest nextSeq output count a (others.erase packet) := by
  have hmem : packet ∈ a :: others := h.perm.subset (hperm.symm.subset List.mem_cons_self)
  have hne : packet ≠ a := fun heq => hseq (heq ▸ h.seq_eq)
  have hin : packet ∈ others := (List.mem_cons.mp hmem).resolve_left hne
  have hsplit : (packet :: rest).Perm (packet :: a :: others.erase packet) :=
    calc (packet :: rest).Perm (a :: others) := hperm.symm.trans h.perm
      _ |>.Perm (a :: packet :: others.erase packet) := (List.perm_cons_erase hin).cons a
      _ |>.Perm (packet :: a :: others.erase packet) := List.Perm.swap ..
  exact ⟨List.Perm.cons_inv hsplit, h.seq_eq, fun p hp => h.full p (List.mem_of_mem_erase hp),
    fun p hp => h.alone p (List.mem_of_mem_erase hp), h.output_eq⟩

/-- **The whole of the next packet is returned.** -/
theorem Continues.finish (h : Continues payload heap nextSeq output count)
    (hcount : nextSeq = UInt64.ofNat count) (hperm : heap.Perm (packet :: rest))
    (hseq : packet.seq = nextSeq) :
    Fresh payload rest (output ++ packet.payload) (count + 1) := by
  rcases h with h | ⟨a, others, h⟩
  · obtain ⟨hpacket, hrest⟩ := List.forall_mem_cons.mp fun p hp => h.full p (hperm.symm.subset hp)
    refine ⟨hrest, ?_⟩
    rw [stream_succ, h.output_eq, hpacket.2, hseq, hcount]
  · obtain ⟨rfl, hothers⟩ := h.eq_of_seq hperm hseq
    obtain ⟨part, houtput, hpart⟩ := h.output_eq
    refine ⟨fun p hp => h.full p (hothers.subset hp), ?_⟩
    rw [stream_succ, houtput, List.append_assoc, hpart, hcount]

/-- **A part of the next packet is returned, and the rest goes back.** -/
theorem Continues.part (h : Continues payload heap nextSeq output count)
    (hperm : heap.Perm (packet :: rest)) (hseq : packet.seq = nextSeq)
    (hshort : n < packet.payload.length) (hsafe : SafeRead heap nextSeq n)
    {heap' : List Packet}
    (hheap : heap'.Perm ({ packet with payload := packet.payload.drop n } :: rest)) :
    Continues payload heap' nextSeq (output ++ packet.payload.take n) count := by
  rcases h with h | ⟨a, others, h⟩
  · obtain ⟨hpacket, hrest⟩ := List.forall_mem_cons.mp fun p hp => h.full p (hperm.symm.subset hp)
    rcases hsafe with rfl | hone | hlong
    · refine .inl ⟨fun p hp => ?_, by simpa using h.output_eq⟩
      exact h.full p (hperm.symm.subset (by simpa using hheap.subset hp))
    · refine .inr ⟨_, rest, hheap, hseq, hrest, fun p hp hpseq => ?_, _, by rw [h.output_eq], ?_⟩
      · -- a second copy of the number would be counted
        rw [hperm.countP_eq, List.countP_cons_of_pos (by simpa using hseq)] at hone
        have hpos : 0 < rest.countP (·.seq == nextSeq) :=
          List.countP_pos_iff.mpr ⟨p, hp, by simpa using hpseq⟩
        omega
      · rw [List.take_append_drop, hpacket.2, hseq]
    · have := hlong packet (hperm.symm.subset List.mem_cons_self) hseq
      omega
  · obtain ⟨rfl, hothers⟩ := h.eq_of_seq hperm hseq
    obtain ⟨part, houtput, hpart⟩ := h.output_eq
    refine .inr ⟨_, others, hheap.trans (hothers.cons _), hseq, h.full, h.alone,
      part ++ packet.payload.take n, by rw [houtput, List.append_assoc], ?_⟩
    rw [List.append_assoc, List.take_append_drop, hpart]

/-- A packet of another number is taken out. -/
theorem Continues.drop (h : Continues payload heap nextSeq output count)
    (hperm : heap.Perm (packet :: rest)) (hseq : packet.seq ≠ nextSeq) :
    Continues payload rest nextSeq output count := by
  rcases h with h | ⟨a, others, h⟩
  · exact .inl ⟨fun p hp => h.full p (hperm.symm.subset (List.mem_cons_of_mem packet hp)),
      h.output_eq⟩
  · exact .inr ⟨a, _, h.pop_other hperm hseq⟩

/-- **A packet that is begun comes before those of higher numbers.** -/
theorem Continues.fresh_of_lt (h : Continues payload heap nextSeq output count)
    (hleast : ∀ p ∈ heap, nextSeq < p.seq) : Fresh payload heap output count := by
  rcases h with h | ⟨a, others, h⟩
  · exact h
  · have hlt := hleast a (h.perm.symm.subset List.mem_cons_self)
    rw [h.seq_eq] at hlt
    exact absurd hlt (UInt64.lt_irrefl nextSeq)

/-- What is safe for a heap is safe for what is left of it. -/
theorem SafeRead.drop (h : SafeRead heap nextSeq n) (hperm : heap.Perm (packet :: rest)) :
    SafeRead rest nextSeq n := by
  rcases h with h | h | h
  · exact .inl h
  · refine .inr (.inl (Nat.le_trans ?_ h))
    rw [hperm.countP_eq, List.countP_cons]
    omega
  · exact .inr (.inr fun p hp => h p (hperm.symm.subset (List.mem_cons_of_mem packet hp)))

end heap

/-! ## The loop and the steps -/

namespace UploadQueue

variable {payload : UInt64 → List UInt8} {q q' : UploadQueue} {e : UploadEvent} {o : UploadOutput}
  {n : ℕ}

/-- A read that returns leaves nobody waiting. -/
theorem inv_returns {count : ℕ} {bytes : List UInt8} (hreader : q.reader = none)
    (hpushed : ∀ p ∈ q.pushedPackets, p.Full payload)
    (hordered : Ordered (keys Packet.number q.heap)) (hcount : q.nextSeq = UInt64.ofNat count)
    (hcontinues : Continues payload q.heap q.nextSeq (q.output ++ bytes) count) :
    QueueInv payload (q.returns bytes).1 where
  reader := hreader
  pushed := hpushed
  ordered := hordered
  continues := ⟨count, hcount, hcontinues⟩
  first _ h := by cases h
  further _ h := by cases h

/-- **The loop keeps the invariant**, from a heap that continues the stream and that the read is safe
for. -/
theorem readLoop_inv : ∀ {fuel : ℕ} {q : UploadQueue} {count : ℕ}, q.reader = none →
    (∀ p ∈ q.pushedPackets, p.Full payload) → Ordered (keys Packet.number q.heap) →
    q.nextSeq = UInt64.ofNat count → Continues payload q.heap q.nextSeq q.output count →
    SafeRead q.heap q.nextSeq n → QueueInv payload (readLoop n fuel q).1
  | 0, q, count, hreader, hpushed, hordered, hcount, hcontinues, _ =>
    inv_returns hreader hpushed hordered hcount (by rwa [List.append_nil])
  | fuel + 1, q, count, hreader, hpushed, hordered, hcount, hcontinues, hsafe => by
    unfold readLoop
    split
    · exact inv_returns hreader hpushed hordered hcount (by rwa [List.append_nil])
    · rename_i packet heap hpop
      have hperm := pop_perm hpop
      have hrest := hordered.pop hpop
      split
      · rename_i hseq
        dsimp only
        split
        · rename_i hshort
          exact inv_returns hreader hpushed (hrest.push _) hcount
            (hcontinues.part hperm hseq hshort hsafe (push_perm heap _))
        · rename_i hlong
          have hnext : packet.seq + 1 = UInt64.ofNat (count + 1) := by
            rw [hseq, hcount, UInt64.ofNat_add]
            rfl
          have hfinish := hcontinues.finish hcount hperm hseq
          rw [← List.take_of_length_le (Nat.le_of_not_lt hlong)] at hfinish
          exact inv_returns hreader hpushed hrest hnext (.inl hfinish)
      · rename_i hne
        split
        · rename_i hgt
          have hleast : ∀ p ∈ q.heap, q.nextSeq < p.seq := fun p hp =>
            UInt64.lt_of_lt_of_le hgt (hordered.pop_le hpop p hp)
          have hfresh := hcontinues.fresh_of_lt hleast
          split
          · exact ⟨hreader, hpushed, hrest, ⟨count, hcount, hcontinues.drop hperm hne⟩,
              fun _ h => (by cases h), fun _ h => (by cases h)⟩
          · have hback : (push Packet.number heap packet).Perm q.heap :=
              (push_perm heap packet).trans hperm.symm
            exact ⟨hreader, hpushed, hrest.push packet,
              ⟨count, hcount, .inl ⟨fun p hp => hfresh.full p (hback.subset hp), hfresh.output_eq⟩⟩,
              fun _ h => (by cases h), fun _ _ p hp => hleast p (hback.subset hp)⟩
        · exact readLoop_inv hreader hpushed hrest hcount (hcontinues.drop hperm hne)
            (hsafe.drop hperm)

/-- The heap a received packet is pushed onto has no other packet of the next number. -/
theorem safeRead_push {heap : List Packet} {nextSeq : UInt64} (p : Packet)
    (h : ∀ p' ∈ heap, p'.seq ≠ nextSeq) :
    SafeRead (push Packet.number heap p) nextSeq n := by
  refine .inr (.inl ?_)
  have hnone : heap.countP (·.seq == nextSeq) = 0 :=
    List.countP_eq_zero.mpr fun p' hp' => by simpa using h p' hp'
  rw [(push_perm heap p).countP_eq, List.countP_cons, hnone]
  split <;> omega

/-- A packet is received where every packet of the heap is whole. -/
theorem inv_receive (h : QueueInv payload q) {p : Packet} {pushedPackets : List Packet}
    (hpushed : q.pushedPackets = p :: pushedPackets)
    (hlater : ∀ p' ∈ q.heap, q.nextSeq < p'.seq) :
    QueueInv payload ({ q with pushedPackets }.runLoop n (push Packet.number q.heap p)).1 := by
  obtain ⟨count, hcount, hcontinues⟩ := h.continues
  have hfresh := hcontinues.fresh_of_lt hlater
  obtain ⟨hp, hrest⟩ := List.forall_mem_cons.mp fun x hx => h.pushed x (hpushed ▸ hx)
  have hall : ∀ x ∈ push Packet.number q.heap p, x.Full payload := fun x hx => by
    obtain rfl | hx := List.mem_cons.mp ((push_perm q.heap p).subset hx)
    · exact hp
    · exact hfresh.full x hx
  exact readLoop_inv h.reader hrest (h.ordered.push p) hcount (.inl ⟨hall, hfresh.output_eq⟩)
    (safeRead_push p fun p' hp' => (UInt64.ne_of_lt (hlater p' hp')).symm)

/-- What is pushed carries the payload of its number. -/
def carries (payload : UInt64 → List UInt8) : UploadEvent → Prop
  | .push p => p.Full payload
  | _ => True

/-- A read that is called is safe for the heap. -/
def safe (q : UploadQueue) : UploadEvent → Prop
  | .read n _ => SafeRead q.heap q.nextSeq n
  | _ => True

theorem inv_step (h : QueueInv payload q) (hcarries : carries payload e) (hsafe : q.safe e)
    (hstep : q.step e = some (q', o)) : QueueInv payload q' := by
  cases e with
  | push p =>
    obtain ⟨-, hstep⟩ := Option.ite_none_left_eq_some.mp hstep
    split at hstep
    · cases hstep
      exact h
    · cases hstep
      refine ⟨h.reader, fun x hx => ?_, h.ordered, h.continues, h.first, h.further⟩
      obtain hx | hx := List.mem_append.mp hx
      · exact h.pushed x hx
      · exact List.mem_singleton.mp hx ▸ hcarries
  | read n given =>
    obtain ⟨-, hstep⟩ := Option.ite_none_left_eq_some.mp hstep
    have hreader : q.reader.isSome = false := by rw [h.reader]; rfl
    simp only [hreader, Bool.false_eq_true, if_false] at hstep
    split at hstep
    · cases hstep
      exact h
    · split at hstep
      · rename_i hempty
        cases hstep
        exact ⟨h.reader, h.pushed, h.ordered, h.continues, fun _ _ => hempty,
          fun _ hpc => (by cases hpc)⟩
      · obtain ⟨count, hcount, hcontinues⟩ := h.continues
        have hrun := @readLoop_inv _ _ q.heap.length _ _ h.reader h.pushed h.ordered hcount
          hcontinues hsafe
        rw [← (Prod.mk.inj (Option.some.inj hstep)).1]
        exact hrun
  | receive given =>
    dsimp only [step] at hstep
    split at hstep
    · cases hstep
    · obtain ⟨-, hstep⟩ := Option.ite_none_right_eq_some.mp hstep
      cases hstep
      exact ⟨h.reader, h.pushed, h.ordered, h.continues, fun _ hpc => (by cases hpc),
        fun _ hpc => (by cases hpc)⟩
    · rename_i n p pushedPackets hpc hpushed
      have hnone : p.reader = none := (h.pushed p (hpushed ▸ List.mem_cons_self)).1
      have hempty := h.first n hpc
      rw [hnone] at hstep
      have hrun := inv_receive (n := n) h hpushed (by rw [hempty]; simp)
      rw [← (Prod.mk.inj (Option.some.inj hstep)).1]
      exact hrun
    · rename_i n p pushedPackets hpc hpushed
      have hrun := inv_receive (n := n) h hpushed (h.further n hpc)
      rw [← (Prod.mk.inj (Option.some.inj hstep)).1]
      exact hrun
  | close =>
    obtain ⟨-, hstep⟩ := Option.ite_none_left_eq_some.mp hstep
    split at hstep
    · cases hstep
      exact h
    · cases hstep
      exact ⟨h.reader, h.pushed, h.ordered, h.continues, h.first, h.further⟩
  | closeDrain =>
    obtain ⟨-, hstep⟩ := Option.ite_none_right_eq_some.mp hstep
    split at hstep
    · cases hstep
    · rename_i p pushedPackets hpushed
      cases hstep
      obtain ⟨hp, hrest⟩ := List.forall_mem_cons.mp fun x hx => h.pushed x (hpushed ▸ hx)
      exact ⟨by rw [hp.1, Option.none_or, h.reader], hrest, h.ordered, h.continues, h.first,
        h.further⟩
  | closeEnd =>
    obtain ⟨-, hstep⟩ := Option.ite_none_right_eq_some.mp hstep
    cases hstep
    exact ⟨h.reader, h.pushed, h.ordered, h.continues, h.first, h.further⟩

theorem inv_new (maxPackets : ℕ) : QueueInv payload (newUploadQueue maxPackets) where
  reader := rfl
  pushed := by simp [newUploadQueue]
  ordered := ordered_nil
  continues := ⟨0, rfl, .inl ⟨by simp [newUploadQueue], rfl⟩⟩
  first _ _ := rfl
  further _ h := by cases h

/-- What is returned is a beginning of the stream. -/
theorem QueueInv.output_isPrefix (h : QueueInv payload q) : ∃ n, q.output <+: stream payload n := by
  obtain ⟨count, hcount, hfresh | ⟨a, others, hbegun⟩⟩ := h.continues
  · exact ⟨count, hfresh.output_eq ▸ List.prefix_refl _⟩
  · obtain ⟨part, houtput, hpart⟩ := hbegun.output_eq
    refine ⟨count + 1, a.payload, ?_⟩
    rw [houtput, List.append_assoc, hpart, stream_succ, hcount]

/-- **The reads return a beginning of the stream**: in every run in which packets carry the payload
of their number, and no read takes a part of the next packet while the heap has a second copy of
it. -/
theorem upload_reassembles {payload : UInt64 → List UInt8} {maxPackets : ℕ} {q : UploadQueue}
    (hrun : uploadQueue.ReachesIf (fun q e => carries payload e ∧ q.safe e)
      (newUploadQueue maxPackets) q) :
    ∃ n, q.output <+: stream payload n :=
  QueueInv.output_isPrefix (hrun.invariant (fun _ _ _ _ hadmit hstep h =>
    inv_step h hadmit.1 hadmit.2 hstep) (inv_new maxPackets))

/-! ## Runs -/

/-- One byte under the number 0, two bytes under all others. -/
def samplePayload (seq : UInt64) : List UInt8 := if seq = 0 then [9] else [10, 11]

def samplePacket (seq : UInt64) : Packet := ⟨none, samplePayload seq, seq⟩

/-- Does a push carry the payload of its number? -/
def carried : UploadEvent → Bool
  | .push p => decide (p.reader = none) && decide (p.payload = samplePayload p.seq)
  | _ => true

theorem carries_of_carried {e : UploadEvent} (h : carried e = true) : carries samplePayload e := by
  cases e with
  | push p => simpa [carried, carries, Packet.Full] using h
  | _ => trivial

/-- Has the heap no second copy of the next packet when a read is called? -/
def single (q : UploadQueue) : UploadEvent → Bool
  | .read _ _ => decide (q.heap.countP (·.seq == q.nextSeq) ≤ 1)
  | _ => true

theorem safe_of_single {q : UploadQueue} {e : UploadEvent} (h : q.single e = true) : q.safe e := by
  cases e with
  | read n given => exact .inr (.inl (of_decide_eq_true h))
  | _ => trivial

/-- The packets come as 1, 0, 1, and the second read takes a part. -/
def sampleUploads : List UploadEvent :=
  [.push (samplePacket 1), .push (samplePacket 0), .push (samplePacket 1), .read 8 [], .receive [],
    .receive [], .read 1 [], .read 8 []]

/-- A run whose bytes are in order. -/
theorem upload_reassembles_sample :
    ∃ q, uploadQueue.ReachesIf (fun q e => carries samplePayload e ∧ q.safe e)
        (newUploadQueue 3) q ∧
      q.output = [9, 10, 11] ∧ ∃ n, q.output <+: stream samplePayload n := by
  have hrun : (uploadQueue.runIf (fun q e => carried e && q.single e) (newUploadQueue 3)
      sampleUploads).map (·.output) = some [9, 10, 11] := by
    decide +kernel
  obtain ⟨q, hq, hout⟩ := Option.map_eq_some_iff.mp hrun
  have hreach : uploadQueue.ReachesIf (fun q e => carries samplePayload e ∧ q.safe e)
      (newUploadQueue 3) q := by
    refine Machine.reachesIf_runIf (fun q e h => ?_) hq
    obtain ⟨hcarried, hsingle⟩ := Bool.and_eq_true_iff.mp h
    exact ⟨carries_of_carried hcarried, safe_of_single hsingle⟩
  exact ⟨q, hreach, hout, upload_reassembles hreach⟩

/-- The packets come as 1, 1, 0: both copies of 1 are in the heap when its turn comes. -/
def sampleCopies : List UploadEvent :=
  [.push (samplePacket 1), .push (samplePacket 1), .push (samplePacket 0), .read 8 [], .receive [],
    .receive [], .receive [], .read 1 [], .read 8 []]

theorem repeated_not_stream (n : ℕ) : ¬[9, 10, 10, 11] <+: stream samplePayload n := by
  intro h
  have hcompare : [9, 10, 10, 11] <+: stream samplePayload 2 ∨
      stream samplePayload 2 <+: [9, 10, 10, 11] := by
    obtain hle | hle := Nat.le_total 2 n
    · exact List.prefix_or_prefix_of_prefix h (stream_mono samplePayload hle)
    · exact .inl (h.trans (stream_mono samplePayload hle))
  revert hcompare
  decide

/-- **A part of a packet is returned twice**: the rest that goes back into the heap stands behind the
second copy. -/
theorem upload_repeats_bytes :
    ∃ q, uploadQueue.ReachesIf (fun _ e => carries samplePayload e) (newUploadQueue 3) q ∧
      q.output = [9, 10, 10, 11] ∧ ¬∃ n, q.output <+: stream samplePayload n := by
  have hrun : (uploadQueue.runIf (fun _ e => carried e) (newUploadQueue 3) sampleCopies).map
      (·.output) = some [9, 10, 10, 11] := by
    decide +kernel
  obtain ⟨q, hq, hout⟩ := Option.map_eq_some_iff.mp hrun
  refine ⟨q, Machine.reachesIf_runIf (fun _ _ h => carries_of_carried h) hq, hout, ?_⟩
  rw [hout]
  exact fun ⟨n, hn⟩ => repeated_not_stream n hn

end UploadQueue

end PokrovCore.Xhttp
