import PokrovCore.Foundations.ReplayWindow
import PokrovCore.Foundations.Wire

/-!
# Slipstream/LocalIo — what a key seals between a process and its child

A parent and its child share a key and a generation.  Every code they compute begins with a text for
its use, and the four texts are prefix-free, so that no input of one use is an input of another
(`input_ne`).  A frame is a magic, the generation, a number of eight bytes, the payload and its code:
opening reads what sealing wrote (`openDNS_sealDNS`), and what opens is a frame under a valid code
(`openDNS_eq`).  The numbers of frames pass a replay window of two machine words.
-/

namespace PokrovCore.Slipstream

/-! ## Bytes -/

/-- The bytes of an ASCII text. -/
def ascii (s : String) : List UInt8 := s.toList.map fun c => UInt8.ofNat c.toNat

def bootstrapMagic : List UInt8 := ascii "PKRVIPC1"
def readyMagic : List UInt8 := ascii "PKRVRDY1"
def tcpMagic : List UInt8 := ascii "PKRVTCP1"
def dnsMagic : List UInt8 := ascii "PKRVDNS1"

/-- `sha256.Size` -/
def tagSize : ℕ := 32

def dnsFrameSize : ℕ := 8 + 16 + 8 + tagSize

/-- **The uses of a code.** -/
inductive MacUse
  | childProof
  | parentProof
  | dnsQuery
  | dnsReply
  deriving DecidableEq, Repr

/-- The text a use begins with. -/
def MacUse.domain : MacUse → List UInt8
  | .childProof => ascii "pokrov/slipstream/local/v1/tcp/child\x00"
  | .parentProof => ascii "pokrov/slipstream/local/v1/tcp/parent\x00"
  | .dnsQuery => ascii "pokrov/slipstream/local/v1/dns/query\x00"
  | .dnsReply => ascii "pokrov/slipstream/local/v1/dns/reply\x00"

/-- Where the texts differ: the first letter of their last word. -/
def MacUse.letter : MacUse → UInt8
  | .childProof => 0x63
  | .parentProof => 0x70
  | .dnsQuery => 0x71
  | .dnsReply => 0x72

theorem MacUse.domain_getElem? (u : MacUse) : u.domain[31]? = some u.letter := by
  cases u <;> decide +kernel

/-- No text begins another. -/
theorem MacUse.eq_of_isPrefix {u v : MacUse} (h : u.domain <+: v.domain) : u = v := by
  obtain ⟨rest, hrest⟩ := h
  have hletter : v.domain[31]? = some u.letter := by
    obtain ⟨hlt, -⟩ := List.getElem?_eq_some_iff.mp u.domain_getElem?
    rw [← hrest, List.getElem?_append_left hlt, u.domain_getElem?]
  have hsame := Option.some.inj (v.domain_getElem?.symm.trans hletter)
  cases u <;> cases v <;> first
    | rfl
    | exact absurd hsame (by decide)

/-! ## Keys -/

/-- **A key and a generation.**  The keyed function is that of the code, under the key. -/
structure LocalAuth where
  hmac : List UInt8 → List UInt8
  hmac_length : ∀ x, (hmac x).length = tagSize
  generation : List UInt8
  generation_length : generation.length = 16

namespace LocalAuth

variable (a : LocalAuth)

/-- The code of a message in parts. -/
def mac (domain : List UInt8) (parts : List (List UInt8)) : List UInt8 :=
  a.hmac (domain ++ a.generation ++ parts.flatten)

/-- What a use of the code is computed from. -/
def input (u : MacUse) (message : List UInt8) : List UInt8 := u.domain ++ a.generation ++ message

/-- **No input of one use is an input of another.** -/
theorem input_ne {u v : MacUse} (huv : u ≠ v) (m m' : List UInt8) : a.input u m ≠ a.input v m' := by
  intro h
  have hu : u.domain <+: a.input u m := ⟨a.generation ++ m, by simp [input]⟩
  have hv : v.domain <+: a.input u m := h ▸ ⟨a.generation ++ m', by simp [input]⟩
  rcases List.prefix_or_prefix_of_prefix hu hv with h | h
  · exact huv (MacUse.eq_of_isPrefix h)
  · exact huv (MacUse.eq_of_isPrefix h).symm

theorem input_injective {u : MacUse} {m m' : List UInt8} (h : a.input u m = a.input u m') : m = m' :=
  List.append_cancel_left h

/-- Is a code that of a message, in a use? -/
def Valid (u : MacUse) (message tag : List UInt8) : Prop := tag = a.hmac (a.input u message)

/-- **The uses are apart**: where the keyed function does not collide, a code that is valid in one
use is valid for no message of another. -/
theorem Valid.apart {a : LocalAuth} {S : Set (List UInt8)} (hS : Set.InjOn a.hmac S) {u v : MacUse}
    (huv : u ≠ v) {m m' tag : List UInt8} (hm : a.input u m ∈ S) (hm' : a.input v m' ∈ S)
    (h : a.Valid u m tag) : ¬a.Valid v m' tag :=
  fun h' => a.input_ne huv m m' (hS hm hm' (h.symm.trans h'))

/-! ## The handshake -/

/-- What the parent writes first. -/
def hello (nonce : List UInt8) : List UInt8 := tcpMagic ++ a.generation ++ nonce

/-- The reply of a child: 32 bytes of its own, and its proof.  The parent answers with a proof. -/
def authenticate (nonce reply : List UInt8) : Option (List UInt8) :=
  if reply.length = 64 ∧ reply.drop 32 = a.mac MacUse.childProof.domain [nonce, reply.take 32] then
    some (a.mac MacUse.parentProof.domain [nonce, reply.take 32])
  else none

/-- The message of a child that is ready: its ports. -/
def parseReady (message : List UInt8) : Option (ℕ × ℕ) :=
  if message.length ≠ 28 ∨ message.take 8 ≠ readyMagic ∨
      (message.drop 8).take 16 ≠ a.generation then none
  else
    match message.drop 24 with
    | [t, t', u, u'] =>
      let tcpPort := Wire.nat16 t t'
      let udpPort := Wire.nat16 u u'
      if tcpPort = 0 ∨ udpPort = 0 then none else some (tcpPort, udpPort)
    | _ => none

/-! ## Frames -/

/-- The part of a frame under the code. -/
def frame (sequence : ℕ) (payload : List UInt8) : List UInt8 :=
  dnsMagic ++ a.generation ++ Wire.bytesBE 8 sequence ++ payload

def sealDNS (domain : List UInt8) (sequence : ℕ) (payload : List UInt8) : List UInt8 :=
  a.frame sequence payload ++ a.mac domain [a.frame sequence payload]

def openDNS (domain message : List UInt8) : List UInt8 × ℕ × Bool :=
  if message.length ≤ dnsFrameSize ∨ message.take 8 ≠ dnsMagic ∨
      (message.drop 8).take 16 ≠ a.generation then ([], 0, false)
  else
    let stop := message.length - tagSize
    if message.drop stop ≠ a.mac domain [message.take stop] then ([], 0, false)
    else
      let sequence := Wire.natBE ((message.drop 24).take 8)
      ((message.take stop).drop 32, sequence, sequence != 0)

@[simp] theorem dnsMagic_length : dnsMagic.length = 8 := by decide

theorem frame_length (sequence : ℕ) (payload : List UInt8) :
    (a.frame sequence payload).length = 32 + payload.length := by
  simp [frame, a.generation_length, Wire.bytesBE_length]
  omega

/-- The fields of a frame, whatever follows. -/
theorem frame_fields (sequence : ℕ) (payload rest : List UInt8) :
    (a.frame sequence payload ++ rest).take 8 = dnsMagic ∧
      ((a.frame sequence payload ++ rest).drop 8).take 16 = a.generation ∧
      ((a.frame sequence payload ++ rest).drop 24).take 8 = Wire.bytesBE 8 sequence ∧
      (a.frame sequence payload).drop 32 = payload := by
  have h8 := dnsMagic_length
  have h16 := a.generation_length
  have h24 := Wire.bytesBE_length 8 sequence
  unfold frame
  refine ⟨?_, ?_, ?_, ?_⟩
  · rw [List.append_assoc, List.append_assoc, List.append_assoc, List.take_left' h8]
  · rw [List.append_assoc, List.append_assoc, List.append_assoc, List.drop_left' h8,
      List.take_left' h16]
  · rw [List.append_assoc, List.append_assoc, List.drop_left' (by simp [h8, h16]),
      List.take_left' h24]
  · exact List.drop_left' (by simp [h8, h16, h24])

theorem frame_injective {s s' : ℕ} {p p' : List UInt8} (hs : s < 2 ^ 64) (hs' : s' < 2 ^ 64)
    (h : a.frame s p = a.frame s' p') : s = s' ∧ p = p' := by
  obtain ⟨-, -, hn, hp⟩ := a.frame_fields s p []
  obtain ⟨-, -, hn', hp'⟩ := a.frame_fields s' p' []
  rw [h] at hn hp
  refine ⟨?_, hp.symm.trans hp'⟩
  have := congrArg Wire.natBE (hn.symm.trans hn')
  rwa [Wire.natBE_bytesBE, Wire.natBE_bytesBE, Nat.mod_eq_of_lt (by simpa using hs),
    Nat.mod_eq_of_lt (by simpa using hs')] at this

/-- **Opening reads what sealing wrote.** -/
theorem openDNS_sealDNS (domain : List UInt8) {sequence : ℕ} {payload : List UInt8}
    (hs : 1 ≤ sequence) (hs' : sequence < 2 ^ 64) (hp : payload ≠ []) :
    a.openDNS domain (a.sealDNS domain sequence payload) = (payload, sequence, true) := by
  have hlen : (a.sealDNS domain sequence payload).length = 64 + payload.length := by
    rw [sealDNS, List.length_append, frame_length, mac, a.hmac_length, tagSize]
    omega
  have hpos : 0 < payload.length := List.length_pos_iff.mpr hp
  obtain ⟨hmagic, hgeneration, hsequence, hpayload⟩ :=
    a.frame_fields sequence payload (a.mac domain [a.frame sequence payload])
  have hstop : (a.sealDNS domain sequence payload).length - tagSize =
      (a.frame sequence payload).length := by
    rw [hlen, frame_length, tagSize]
    omega
  have hnumber : Wire.natBE (((a.sealDNS domain sequence payload).drop 24).take 8) = sequence := by
    rw [sealDNS, hsequence, Wire.natBE_bytesBE, Nat.mod_eq_of_lt (by simpa using hs')]
  unfold openDNS
  rw [if_neg]
  · simp only [hstop]
    rw [if_neg]
    · rw [hnumber]
      simp only [sealDNS, List.take_left, hpayload]
      simp
      omega
    · simp [sealDNS]
  · simp only [not_or, not_not, hlen]
    exact ⟨by unfold dnsFrameSize tagSize; omega, hmagic, hgeneration⟩

/-- **What opens is a frame under a valid code.** -/
theorem openDNS_eq {domain message payload : List UInt8} {sequence : ℕ}
    (h : a.openDNS domain message = (payload, sequence, true)) :
    message = a.frame sequence payload ++ a.mac domain [a.frame sequence payload] ∧
      sequence < 2 ^ 64 := by
  unfold openDNS at h
  split at h
  · simp at h
  · rename_i hgood
    simp only [not_or, not_not, not_le] at hgood
    obtain ⟨hlen, hmagic, hgeneration⟩ := hgood
    simp only at h
    split at h
    · simp at h
    · rename_i htag
      simp only [Prod.mk.injEq] at h
      obtain ⟨hpayload, hsequence, -⟩ := h
      have h64 : 64 < message.length := hlen
      have hnumber : (message.drop 24).take 8 = Wire.bytesBE 8 sequence := by
        rw [← hsequence, Wire.bytesBE_natBE (by simp; omega)]
      have hframe : message.take (message.length - tagSize) = a.frame sequence payload := by
        have hhead : (message.take (message.length - tagSize)).take 32 =
            message.take 8 ++ (message.drop 8).take 16 ++ (message.drop 24).take 8 := by
          rw [List.take_take, Nat.min_eq_left (by unfold tagSize; omega),
            show 32 = 8 + 16 + 8 from rfl, List.take_add, List.take_add]
        rw [← List.take_append_drop 32 (message.take (message.length - tagSize)), hhead, hpayload,
          hmagic, hgeneration, hnumber, frame]
      refine ⟨?_, ?_⟩
      · rw [← hframe, ← not_not.mp htag, List.take_append_drop]
      · rw [← hsequence]
        have hlt := Wire.natBE_lt ((message.drop 24).take 8)
        rwa [show ((message.drop 24).take 8).length = 8 by simp; omega] at hlt

end LocalAuth

/-! ## The replay window -/

/-- `replayWindow`, on machine words. -/
structure WordWindow where
  highest : BitVec 64
  bitmap : BitVec 64
  deriving DecidableEq

namespace WordWindow

/-- **`replayWindow.accept`.**  A shift by 64 or more gives zero. -/
def accept (w : WordWindow) (sequence : BitVec 64) : Bool × WordWindow :=
  if sequence = 0 then (false, w)
  else if sequence > w.highest then
    let shift := sequence - w.highest
    (true, ⟨sequence, w.bitmap <<< shift.toNat ||| 1⟩)
  else
    let distance := w.highest - sequence
    if distance ≥ 64 ∨ w.bitmap &&& (1 : BitVec 64) <<< distance.toNat ≠ 0 then (false, w)
    else (true, { w with bitmap := w.bitmap ||| (1 : BitVec 64) <<< distance.toNat })

/-- A fresh window. -/
def fresh : WordWindow := ⟨0, 0⟩

/-- Feed numbers to a window; those that were accepted are kept, the last one first. -/
def feed (w : WordWindow) (accepted : List (BitVec 64)) :
    List (BitVec 64) → WordWindow × List (BitVec 64)
  | [] => (w, accepted)
  | sequence :: rest =>
    let r := w.accept sequence
    r.2.feed (if r.1 then sequence :: accepted else accepted) rest

/-- The window, with its highest number as a natural one. -/
def toReplayWindow (w : WordWindow) : ReplayWindow 64 := ⟨w.highest.toNat, w.bitmap⟩

variable {w : WordWindow} {sequence : BitVec 64} {accepted : List (BitVec 64)}

/-- A bit of the bitmap, as the mask reads it. -/
theorem and_one_shiftLeft_eq_zero (b : BitVec 64) {d : ℕ} (hd : d < 64) :
    b &&& (1 : BitVec 64) <<< d = 0 ↔ b.getLsbD d = false := by
  constructor
  · intro h
    have hbit := congrArg (·.getLsbD d) h
    simpa [hd] using hbit
  · intro h
    refine BitVec.eq_of_getLsbD_eq fun i hi => ?_
    by_cases hid : i = d
    · subst hid
      simp [h]
    · simp
      omega

/-- **The words decide and keep what the window over all numbers decides and keeps.** -/
theorem accept_refines (w : WordWindow) (sequence : BitVec 64) :
    w.toReplayWindow.accept sequence.toNat =
      if (w.accept sequence).1 then some (w.accept sequence).2.toReplayWindow else none := by
  unfold WordWindow.accept ReplayWindow.accept
  by_cases hzero : sequence = 0
  · simp [hzero]
  have hzero' : sequence.toNat ≠ 0 := fun h => hzero (BitVec.eq_of_toNat_eq h)
  rw [if_neg hzero', if_neg hzero]
  by_cases hnew : sequence > w.highest
  · have hnew' : w.toReplayWindow.highest < sequence.toNat := hnew
    have hshift : (sequence - w.highest).toNat = sequence.toNat - w.highest.toNat :=
      BitVec.toNat_sub_of_le (BitVec.le_of_lt hnew)
    rw [if_pos hnew, if_pos hnew']
    simp only [if_true, toReplayWindow, hshift]
    rfl
  · have hnew' : ¬w.toReplayWindow.highest < sequence.toNat := hnew
    have hdistance : (w.highest - sequence).toNat = w.highest.toNat - sequence.toNat :=
      BitVec.toNat_sub_of_le (BitVec.not_lt.mp hnew)
    have hfar : w.highest - sequence ≥ 64 ↔ 64 ≤ w.highest.toNat - sequence.toNat := by
      rw [ge_iff_le, BitVec.le_def, hdistance]
      rfl
    have hcond : (w.highest - sequence ≥ 64 ∨
        w.bitmap &&& (1 : BitVec 64) <<< (w.highest - sequence).toNat ≠ 0) ↔
        (64 ≤ w.highest.toNat - sequence.toNat ∨
          w.bitmap.getLsbD (w.highest.toNat - sequence.toNat) = true) := by
      by_cases hd : 64 ≤ w.highest.toNat - sequence.toNat
      · simp only [hfar, hd, true_or]
      · have hmask := and_one_shiftLeft_eq_zero w.bitmap (Nat.lt_of_not_le hd)
        rw [hfar, hdistance, ne_eq, hmask, Bool.not_eq_false]
    rw [if_neg hnew, if_neg hnew']
    by_cases hstop : 64 ≤ w.highest.toNat - sequence.toNat ∨
        w.bitmap.getLsbD (w.highest.toNat - sequence.toNat) = true
    · refine (if_pos hstop).trans ?_
      dsimp only
      rw [if_pos (hcond.mpr hstop)]
      rfl
    · refine (if_neg hstop).trans ?_
      dsimp only
      rw [if_neg (mt hcond.mp hstop), hdistance]
      rfl

/-- A number that is not accepted leaves the window as it was. -/
theorem accept_of_refused (h : (w.accept sequence).1 = false) : (w.accept sequence).2 = w := by
  unfold accept at h ⊢
  split
  · rfl
  · split
    · rename_i hzero hnew
      rw [if_neg hzero, if_pos hnew] at h
      cases h
    · dsimp only at h ⊢
      split
      · rfl
      · rename_i hzero hold hstop
        rw [if_neg hzero, if_neg hold, if_neg hstop] at h
        cases h

/-- **Feeding keeps the window exact for the numbers that were accepted.** -/
theorem exact_feed : ∀ (sequences : List (BitVec 64)) {w : WordWindow}
    {accepted : List (BitVec 64)},
    w.toReplayWindow.Exact (accepted.map (·.toNat)) →
      (w.feed accepted sequences).1.toReplayWindow.Exact
        ((w.feed accepted sequences).2.map (·.toNat))
  | [], _, _, h => h
  | sequence :: rest, w, accepted, h => by
    have href := w.accept_refines sequence
    unfold feed
    dsimp only
    cases haccept : (w.accept sequence).1 with
    | false =>
      rw [accept_of_refused haccept]
      exact exact_feed rest h
    | true =>
      rw [haccept, if_pos rfl] at href
      rw [if_pos rfl]
      exact exact_feed rest (h.accept href)

/-- **The replay window is its specification by sets**: whatever numbers a fresh window was fed, it
accepts a number exactly when it is not zero, was not accepted before, and lies less than 64 below
every number that was. -/
theorem replay_window_accepts_iff (sequences : List (BitVec 64)) (sequence : BitVec 64) :
    ((fresh.feed [] sequences).1.accept sequence).1 = true ↔
      sequence ≠ 0 ∧ sequence ∉ (fresh.feed [] sequences).2 ∧
        ∀ highest ∈ (fresh.feed [] sequences).2, sequence.toNat + 64 > highest.toNat := by
  have hexact := @exact_feed sequences fresh [] (ReplayWindow.exact_empty 64)
  have hiff := hexact.accept_isSome (n := sequence.toNat)
  rw [accept_refines] at hiff
  have hsome : ∀ (b : Bool) (v : ReplayWindow 64),
      (if b = true then some v else none).isSome = true ↔ b = true := by
    intro b v
    cases b <;> simp
  have hmem : sequence.toNat ∉ (fresh.feed [] sequences).2.map (·.toNat) ↔
      sequence ∉ (fresh.feed [] sequences).2 := by
    rw [List.mem_map_of_injective fun a b hab => BitVec.eq_of_toNat_eq hab]
  rw [hsome, hmem, List.forall_mem_map] at hiff
  rw [hiff]
  refine and_congr_left fun _ => not_congr ⟨fun h => BitVec.eq_of_toNat_eq h, fun h => ?_⟩
  rw [h]
  rfl

end WordWindow

end PokrovCore.Slipstream
