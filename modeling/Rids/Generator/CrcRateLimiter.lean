import Mathlib.Algebra.GroupWithZero.Nat
import Mathlib.Data.BitVec
import Rids.Lib.Batch
import Rids.Lib.Pacing

/-!
# Gaps made of frames with a bad checksum (`crc-rate-limiter.c`)

Before each packet the card has to be kept busy for as many bytes as the packet says. Frames with a
bad checksum fill the gap; none can be shorter than `min_pkt_size`, and two thread-local counters
keep the difference for later gaps.

* `sendAllPackets_spec` — the call ends; the packets go out in their order, each behind the frames
  of its gap, in batches that fit the buffer; the two counters of bad frames are right.
* `sendAllPackets_pace` — with gaps below 1538 bytes, after any number of packets the frames make up
  the gaps that were asked for, and `min_pkt_size` more at most.
* `sendAllPackets_late` — with longer gaps no such bound exists: what is left of a gap after its
  first frame is counted twice.

What is not in the file is taken to do its part: `rte_pktmbuf_alloc` returns a buffer, which is
written to unchecked, and `dpdk_send_all_packets` sends what it is given and returns. A call takes
65535 packets at most, `num_pkts` having 16 bits.
-/

namespace Rids.Generator

open Rids.Lib.Batch Rids.Lib

/-! ### The source -/

/-- The two thread-local counters.
Source: `crc-rate-limiter.c` `get_delay_pkt_bad_crc`
Kind: D -/
structure DelayState where
  target : BitVec 32
  current : BitVec 32
deriving DecidableEq, Repr

/-- A frame with a bad checksum. -/
structure DelayPkt where
  dataLen : BitVec 16
  pktLen : BitVec 32
deriving DecidableEq, Repr

/-- The bytes that a frame takes of a gap.
Source: `crc-rate-limiter.c` `get_delay_pkt_bad_crc`, `calculate the optimimum packet size`
Kind: D -/
def optimumSize (delay : BitVec 32) : BitVec 32 :=
  if delay < 1538 then delay
  else if 2000 < delay then 1538
  else delay / 2

/-- The counters, what is left of the gap, and the frame.
Source: `crc-rate-limiter.c` `get_delay_pkt_bad_crc`
Kind: D -/
def getDelayPktBadCrc (minPktSize : BitVec 32) (s : DelayState) (remDelay : BitVec 32) :
    DelayState × BitVec 32 × Option DelayPkt :=
  let target := s.target + remDelay
  if target < s.current then (⟨target, s.current⟩, 0, none)
  else
    let target := target - s.current
    let (remDelay, delay) :=
      if remDelay < minPktSize then (minPktSize, minPktSize) else (remDelay, remDelay)
    let delay := optimumSize delay
    (⟨target, 0 + delay⟩, remDelay - delay,
      -- preamble, start delimiter and inter-frame gap
      some ⟨(delay - 20).setWidth 16, delay - 20⟩)

/-- What is sent. -/
inductive Frame (P : Type)
  | load (pkt : P)
  | bad (pkt : DelayPkt)

/-- The local variables of a call, with the counters of the thread and the batches that are sent. -/
structure SendState (P : Type) where
  delay : DelayState
  pkts : Batches (Frame P)
  numBadPkts : BitVec 32
  numBadBytes : BitVec 32

/-- Source: `crc-rate-limiter.c` `BUF_SIZE`. Kind: D -/
def bufSize : ℕ := 128

variable {P : Type}

/-- A frame comes into the buffer. -/
def SendState.addBad (st : SendState P) (pkt : DelayPkt) : SendState P :=
  { st with
    numBadPkts := st.numBadPkts + 1
    numBadBytes := st.numBadBytes + pkt.pktLen
    pkts := st.pkts.append (.bad pkt) }

def SendState.sendIf (st : SendState P) (c : Bool) : SendState P :=
  { st with pkts := st.pkts.sendIf c }

/-- The loop over the frames of one gap, with at most `fuel` turns.
Source: `crc-rate-limiter.c` `moongen_send_all_packets_with_delay_bad_crc`, step 1
Kind: D -/
def delayLoop (minPktSize : BitVec 32) : ℕ → SendState P → BitVec 32 → Option (SendState P)
  | 0, st, delay => if delay = 0 then some st else none
  | fuel + 1, st, delay =>
    if delay = 0 then some st
    else
      let (s, delay, pkt) := getDelayPktBadCrc minPktSize st.delay delay
      let st := { st with delay := s }
      let st :=
        match pkt with
        | some pkt => st.addBad pkt
        | none => st
      delayLoop minPktSize fuel (st.sendIf (bufSize ≤ st.pkts.buf.length)) delay

/-- The loop over the packets; `udata64` is the field of a packet that holds its gap.
Source: `crc-rate-limiter.c` `moongen_send_all_packets_with_delay_bad_crc`
Kind: D -/
def sendLoop (udata64 : P → BitVec 64) (minPktSize : BitVec 32) (fuel : ℕ) :
    SendState P → List P → Option (SendState P)
  | st, [] => some st
  | st, pkt :: loadPkts => do
    let st ← delayLoop minPktSize fuel st ((udata64 pkt).setWidth 32)
    let st := { st with pkts := st.pkts.append (.load pkt) }
    sendLoop udata64 minPktSize fuel
      (st.sendIf (bufSize ≤ st.pkts.buf.length || loadPkts.isEmpty)) loadPkts

/-- A call: the counters of the thread afterwards, the batches, and what is added to the counters of
the port. A gap has no more turns than bytes.
Source: `crc-rate-limiter.c` `moongen_send_all_packets_with_delay_bad_crc`
Kind: D -/
def sendAllPackets (udata64 : P → BitVec 64) (minPktSize : BitVec 32) (s : DelayState)
    (loadPkts : List P) : Option (SendState P) :=
  sendLoop udata64 minPktSize (2 ^ 32) ⟨s, ⟨[], []⟩, 0, 0⟩ loadPkts

/-! ### What is sent -/

variable {minPktSize : BitVec 32} {s s' : DelayState} {t : SendState P} {delay : BitVec 32}

/-- The frames of one gap, without the buffer. -/
inductive Gap (minPktSize : BitVec 32) :
    DelayState → BitVec 32 → DelayState → List DelayPkt → Prop
  | done (s : DelayState) : Gap minPktSize s 0 s []
  | turn {s s' : DelayState} {delay : BitVec 32} {frames : List DelayPkt} (hdelay : delay ≠ 0)
      (h : Gap minPktSize (getDelayPktBadCrc minPktSize s delay).1
        (getDelayPktBadCrc minPktSize s delay).2.1 s' frames) :
      Gap minPktSize s delay s'
        ((getDelayPktBadCrc minPktSize s delay).2.2.toList ++ frames)

/-- The frames and packets of a call, without the buffer. -/
inductive Stream (udata64 : P → BitVec 64) (minPktSize : BitVec 32) :
    DelayState → List P → DelayState → List (Frame P) → Prop
  | done (s : DelayState) : Stream udata64 minPktSize s [] s []
  | packet {s s₁ s' : DelayState} {pkt : P} {loadPkts : List P} {frames : List DelayPkt}
      {out : List (Frame P)} (hgap : Gap minPktSize s ((udata64 pkt).setWidth 32) s₁ frames)
      (h : Stream udata64 minPktSize s₁ loadPkts s' out) :
      Stream udata64 minPktSize s (pkt :: loadPkts) s' (frames.map .bad ++ .load pkt :: out)

/-- The frames come into the buffer, or go out with it, and are counted. -/
structure SendState.Adds (t t' : SendState P) (frames : List DelayPkt) : Prop where
  all : t'.pkts.all = t.pkts.all ++ frames.map .bad
  fits : t'.pkts.Fits bufSize
  numBadPkts : t'.numBadPkts = t.numBadPkts + BitVec.ofNat 32 frames.length
  numBadBytes : t'.numBadBytes = t.numBadBytes + (frames.map DelayPkt.pktLen).sum

/-- The packets, and the frames with a bad checksum, among what is sent. -/
def loads (out : List (Frame P)) : List P :=
  out.filterMap fun
    | .load pkt => some pkt
    | .bad _ => none

def bads (out : List (Frame P)) : List DelayPkt :=
  out.filterMap fun
    | .load _ => none
    | .bad pkt => some pkt

/-- The loads behind a gap. -/
@[simp] theorem loads_gap (frames : List DelayPkt) (pkt : P) (out : List (Frame P)) :
    loads (frames.map .bad ++ .load pkt :: out) = pkt :: loads out := by
  simp [loads, List.filterMap_append, List.filterMap_map]

/-- The fillers of a gap come before the later ones. -/
@[simp] theorem bads_gap (frames : List DelayPkt) (pkt : P) (out : List (Frame P)) :
    bads (frames.map .bad ++ .load pkt :: out) = frames ++ bads out := by
  simp [bads, List.filterMap_append, List.filterMap_map]

/-! ### The call ends -/

/-- A delay gives a filler of some size. -/
theorem optimumSize_pos (h : delay ≠ 0) : 0 < (optimumSize delay).toNat := by
  have hpos : 0 < delay.toNat := Nat.pos_of_ne_zero fun h0 => h (BitVec.eq_of_toNat_eq h0)
  unfold optimumSize
  split_ifs with hlow hhigh
  · exact hpos
  · decide
  · rw [BitVec.lt_def, Nat.not_lt] at hlow
    rw [BitVec.toNat_udiv]
    exact Nat.div_pos (Nat.le_trans (by decide) hlow) (by decide)

/-- A filler is not longer than the delay. -/
theorem optimumSize_le (delay : BitVec 32) : (optimumSize delay).toNat ≤ delay.toNat := by
  unfold optimumSize
  split_ifs with hlow hhigh
  · exact Nat.le_refl _
  · rw [BitVec.lt_def, Nat.not_lt] at hlow
    exact hlow
  · rw [BitVec.toNat_udiv]
    exact Nat.div_le_self _ _

/-- A short delay gives one filler. -/
theorem optimumSize_of_lt (h : delay < 1538) : optimumSize delay = delay := if_pos h

/-- A turn of the loop makes the rest of the gap smaller. -/
theorem rem_lt (hmin : minPktSize < 1538) (s : DelayState) (hdelay : delay ≠ 0) :
    (getDelayPktBadCrc minPktSize s delay).2.1.toNat < delay.toNat := by
  have hpos : 0 < delay.toNat := Nat.pos_of_ne_zero fun h0 => hdelay (BitVec.eq_of_toNat_eq h0)
  unfold getDelayPktBadCrc
  dsimp only
  split_ifs with hskip hshort
  · exact hpos
  · dsimp only
    rw [optimumSize_of_lt hmin, BitVec.sub_self]
    exact hpos
  · dsimp only
    rw [BitVec.toNat_sub_of_le (optimumSize_le delay)]
    exact Nat.sub_lt hpos (optimumSize_pos hdelay)

/-- Adding nothing. -/
theorem SendState.Adds.refl (h : t.pkts.Fits bufSize) : t.Adds t [] :=
  ⟨by simp, h, by simp, by simp⟩

/-- **One gap.** The loop ends, and what it adds is what the gap is made of. -/
theorem delayLoop_spec (hmin : minPktSize < 1538) {fuel : ℕ} (hfuel : delay.toNat ≤ fuel)
    (hfits : t.pkts.Fits bufSize) :
    ∃ t' frames, delayLoop minPktSize fuel t delay = some t' ∧
      Gap minPktSize t.delay delay t'.delay frames ∧ t.Adds t' frames := by
  induction fuel generalizing t delay with
  | zero =>
    obtain rfl : delay = 0 := BitVec.eq_of_toNat_eq (Nat.le_zero.mp hfuel)
    exact ⟨t, [], rfl, .done _, .refl hfits⟩
  | succ fuel ih =>
    by_cases hdelay : delay = 0
    · subst hdelay
      exact ⟨t, [], rfl, .done _, .refl hfits⟩
    · have hlt := rem_lt hmin t.delay hdelay
      rw [delayLoop, if_neg hdelay]
      obtain ⟨⟨s₁, rest, pkt⟩, hget⟩ : ∃ r, getDelayPktBadCrc minPktSize t.delay delay = r :=
        ⟨_, rfl⟩
      have hrest : rest.toNat ≤ fuel := by
        rw [hget] at hlt
        dsimp only at hlt
        omega
      have hturn : ∀ {s' frames}, Gap minPktSize s₁ rest s' frames →
          Gap minPktSize t.delay delay s' (pkt.toList ++ frames) := by
        intro s' frames hgap
        have hall : Gap minPktSize t.delay delay s'
            ((getDelayPktBadCrc minPktSize t.delay delay).2.2.toList ++ frames) := by
          apply Gap.turn hdelay
          rwa [hget]
        rwa [hget] at hall
      rw [hget]
      dsimp only
      cases pkt with
      | none =>
        have hsame : ({ t with delay := s₁ } : SendState P).sendIf
            (bufSize ≤ t.pkts.buf.length) = { t with delay := s₁ } := by
          rw [SendState.sendIf, hfits.sendIf_full]
        dsimp only
        rw [hsame]
        obtain ⟨t', frames, hloop, hgap, hadds⟩ := ih (t := { t with delay := s₁ }) hrest hfits
        exact ⟨t', frames, hloop, hturn hgap, ⟨hadds.all, hadds.fits, hadds.numBadPkts,
          hadds.numBadBytes⟩⟩
      | some pkt =>
        have hfits' : (({ t with delay := s₁ } : SendState P).addBad pkt |>.sendIf
            (bufSize ≤ (t.pkts.append (.bad pkt)).buf.length)).pkts.Fits bufSize := by
          have hone := hfits.append_sendIf (.bad pkt) false
          rwa [Bool.or_false] at hone
        obtain ⟨t', frames, hloop, hgap, hadds⟩ := ih hrest hfits'
        refine ⟨t', pkt :: frames, hloop, hturn hgap, ?_, hadds.fits, ?_, ?_⟩
        · rw [hadds.all]
          simp [SendState.sendIf, SendState.addBad]
        · rw [hadds.numBadPkts]
          simp only [SendState.sendIf, SendState.addBad, List.length_cons]
          rw [BitVec.add_assoc, BitVec.add_comm 1, BitVec.ofNat_add]
          rfl
        · rw [hadds.numBadBytes]
          simp only [SendState.sendIf, SendState.addBad, List.map_cons, List.sum_cons]
          rw [BitVec.add_assoc]

/-- **The packets.** The loop ends; each packet goes behind the frames of its gap, and the last one
takes the buffer with it. -/
theorem sendLoop_spec (udata64 : P → BitVec 64) (hmin : minPktSize < 1538) {fuel : ℕ}
    (hfuel : 2 ^ 32 ≤ fuel) (loadPkts : List P) (hfits : t.pkts.Fits bufSize) :
    ∃ t' out, sendLoop udata64 minPktSize fuel t loadPkts = some t' ∧
      Stream udata64 minPktSize t.delay loadPkts t'.delay out ∧
      t'.pkts.all = t.pkts.all ++ out ∧ t'.pkts.Fits bufSize ∧
      (t.pkts.buf = [] ∨ loadPkts ≠ [] → t'.pkts.buf = []) ∧
      t'.numBadPkts = t.numBadPkts + BitVec.ofNat 32 (bads out).length ∧
      t'.numBadBytes = t.numBadBytes + ((bads out).map DelayPkt.pktLen).sum := by
  induction loadPkts generalizing t with
  | nil =>
    refine ⟨t, [], rfl, .done _, by simp, hfits, ?_, by simp [bads], by simp [bads]⟩
    intro h
    exact h.resolve_right fun hne => hne rfl
  | cons pkt loadPkts ih =>
    have hturns : ((udata64 pkt).setWidth 32 : BitVec 32).toNat ≤ fuel :=
      Nat.le_trans (Nat.le_of_lt (BitVec.isLt _)) hfuel
    obtain ⟨t₁, frames, hloop, hgap, hadds⟩ := delayLoop_spec hmin hturns hfits
    have hfits' := hadds.fits.append_sendIf (.load pkt) loadPkts.isEmpty
    rw [sendLoop, hloop]
    obtain ⟨t', out, hrest, hstream, hall, hfits'', hbuf, hpkts, hbytes⟩ :=
      ih (t := SendState.sendIf { t₁ with pkts := t₁.pkts.append (.load pkt) } _) hfits'
    refine ⟨t', frames.map .bad ++ .load pkt :: out, hrest, .packet hgap hstream, ?_, hfits'',
      ?_, ?_, ?_⟩
    · rw [hall]
      simp [SendState.sendIf, hadds.all]
    · intro _
      apply hbuf
      cases loadPkts with
      | cons pkt' loadPkts => exact .inr (List.cons_ne_nil _ _)
      | nil =>
        left
        simp [SendState.sendIf, Batches.sendIf]
    · rw [hpkts]
      simp only [SendState.sendIf, hadds.numBadPkts, bads_gap, List.length_append]
      rw [BitVec.add_assoc, BitVec.ofNat_add]
    · rw [hbytes]
      simp only [SendState.sendIf, hadds.numBadBytes, bads_gap, List.map_append, List.sum_append]
      rw [BitVec.add_assoc]

/-- The loads of a stream are the packets in order. -/
theorem Stream.loads {udata64 : P → BitVec 64} {loadPkts : List P} {out : List (Frame P)}
    (h : Stream udata64 minPktSize s loadPkts s' out) : loads out = loadPkts := by
  induction h with
  | done s => rfl
  | packet hgap h ih => rw [loads_gap, ih]

/-- A call ends, with nothing left in the buffer. -/
theorem sendLoop_ends (udata64 : P → BitVec 64) (hmin : minPktSize < 1538) (s : DelayState)
    (loadPkts : List P) :
    ∃ t, sendAllPackets udata64 minPktSize s loadPkts = some t ∧ t.pkts.buf = [] ∧
      Stream udata64 minPktSize s loadPkts t.delay t.pkts.sent.flatten ∧
      t.pkts.Fits bufSize ∧
      t.numBadPkts = BitVec.ofNat 32 (bads t.pkts.sent.flatten).length ∧
      t.numBadBytes = ((bads t.pkts.sent.flatten).map DelayPkt.pktLen).sum := by
  have hfits : (⟨[], []⟩ : Batches (Frame P)).Fits bufSize := ⟨nofun, nofun, by simp [bufSize]⟩
  obtain ⟨t, out, hsend, hstream, hall, hfits', hbuf, hpkts, hbytes⟩ :=
    sendLoop_spec (t := ⟨s, ⟨[], []⟩, 0, 0⟩) udata64 hmin (Nat.le_refl (2 ^ 32)) loadPkts hfits
  have hempty : t.pkts.buf = [] := hbuf (.inl rfl)
  have hout : t.pkts.sent.flatten = out := by
    rw [Batches.all, hempty, List.append_nil] at hall
    exact hall
  subst hout
  exact ⟨t, hsend, hempty, hstream, hfits', by simpa using hpkts, by simpa using hbytes⟩

/-- **A call.** It ends; the packets go out in their order, each behind the frames of its gap; every
batch holds between one and 128 of them, nothing stays in the buffer, and the frames are counted. -/
theorem sendAllPackets_spec (udata64 : P → BitVec 64) (hmin : minPktSize < 1538) (s : DelayState)
    (loadPkts : List P) :
    ∃ t, sendAllPackets udata64 minPktSize s loadPkts = some t ∧ t.pkts.buf = [] ∧
      Stream udata64 minPktSize s loadPkts t.delay t.pkts.sent.flatten ∧
      loads t.pkts.sent.flatten = loadPkts ∧
      (∀ batch ∈ t.pkts.sent, 1 ≤ batch.length ∧ batch.length ≤ bufSize) ∧
      t.numBadPkts = BitVec.ofNat 32 (bads t.pkts.sent.flatten).length ∧
      t.numBadBytes = ((bads t.pkts.sent.flatten).map DelayPkt.pktLen).sum := by
  obtain ⟨t, hsend, hempty, hstream, hfits, hpkts, hbytes⟩ := sendLoop_ends udata64 hmin s loadPkts
  refine ⟨t, hsend, hempty, hstream, hstream.loads, ?_, hpkts, hbytes⟩
  intro batch hbatch
  exact ⟨List.length_pos_iff.mpr (hfits.nonempty batch hbatch), hfits.length_le batch hbatch⟩

/-- A call with two packets. -/
theorem sendAllPackets_spec_short :
    ∃ t, sendAllPackets id 76 ⟨0, 0⟩ [3000, 10] = some t ∧ t.pkts.buf = [] ∧
      Stream id 76 ⟨0, 0⟩ [3000, 10] t.delay t.pkts.sent.flatten ∧
      loads t.pkts.sent.flatten = [3000, 10] ∧
      (∀ batch ∈ t.pkts.sent, 1 ≤ batch.length ∧ batch.length ≤ bufSize) ∧
      t.numBadPkts = BitVec.ofNat 32 (bads t.pkts.sent.flatten).length ∧
      t.numBadBytes = ((bads t.pkts.sent.flatten).map DelayPkt.pktLen).sum :=
  sendAllPackets_spec id (by decide) ⟨0, 0⟩ [3000, 10]

/-! ### The pace -/

/-- The bytes on the wire: preamble, start delimiter and inter-frame gap come to each frame. -/
def wireBytes (frames : List DelayPkt) : ℕ := (frames.map fun f => f.pktLen.toNat + 20).sum

/-- The bytes of two lists of fillers. -/
@[simp] theorem wireBytes_append (frames frames' : List DelayPkt) :
    wireBytes (frames ++ frames') = wireBytes frames + wireBytes frames' := by
  simp [wireBytes]

/-- A frame for a gap of 20 bytes and more makes that gap. -/
theorem wireBytes_singleton (h : 20 ≤ delay) :
    wireBytes [⟨(delay - 20).setWidth 16, delay - 20⟩] = delay.toNat := by
  have hle : 20 ≤ delay.toNat := h
  rw [wireBytes, List.map_singleton, List.sum_singleton, BitVec.toNat_sub_of_le h]
  exact Nat.sub_add_cancel hle

/-- The gaps that a list of packets asks for. -/
def asked (udata64 : P → BitVec 64) (loadPkts : List P) : List ℕ :=
  loadPkts.map fun pkt => ((udata64 pkt).setWidth 32 : BitVec 32).toNat

/-- The counters hold a debt. -/
structure DelayState.Owes (minPktSize : BitVec 32) (debt : ℕ) (s : DelayState) : Prop where
  current : s.target.toNat + debt = s.current.toNat
  lt : s.current.toNat < 1538
  le : debt ≤ minPktSize.toNat

variable {debt : ℕ} {frames : List DelayPkt}

/-- No delay, no gap. -/
theorem Gap.of_zero (h : Gap minPktSize s 0 s' frames) : s' = s ∧ frames = [] := by
  generalize hzero : (0 : BitVec 32) = d at h
  cases h with
  | done s => exact ⟨rfl, rfl⟩
  | turn hdelay h => exact absurd hzero.symm hdelay

/-- A gap below 1538 bytes is left out, or made by one frame. -/
theorem getDelayPktBadCrc_paced (hlow : 20 ≤ minPktSize) (hmin : minPktSize < 1538)
    (h : s.Owes minPktSize debt) (hlt : delay < 1538) (hdelay : delay ≠ 0) :
    (getDelayPktBadCrc minPktSize s delay).2.1 = 0 ∧
      (getDelayPktBadCrc minPktSize s delay).1.Owes minPktSize
        (Pacing.settle minPktSize.toNat debt delay.toNat) ∧
      wireBytes (getDelayPktBadCrc minPktSize s delay).2.2.toList =
        Pacing.gap minPktSize.toNat debt delay.toNat := by
  obtain ⟨hcurrent, hcurrentLt, hdebt⟩ := h
  have hpos : delay.toNat ≠ 0 := fun h0 => hdelay (BitVec.eq_of_toNat_eq h0)
  have hdelayLt : delay.toNat < 1538 := hlt
  have hminLt : minPktSize.toNat < 1538 := hmin
  have htarget : (s.target + delay).toNat = s.target.toNat + delay.toNat := by
    rw [BitVec.toNat_add, Nat.mod_eq_of_lt]
    omega
  have hskip : s.target + delay < s.current ↔ delay.toNat < debt := by
    rw [BitVec.lt_def, htarget]
    omega
  unfold getDelayPktBadCrc Pacing.settle Pacing.gap
  dsimp only
  by_cases hsmall : delay.toNat < debt
  · rw [if_pos (hskip.mpr hsmall), if_neg hpos, if_pos hsmall, if_pos (.inr hsmall)]
    refine ⟨rfl, ⟨?_, hcurrentLt, ?_⟩, rfl⟩
    · dsimp only
      rw [htarget]
      omega
    · omega
  · have hzero (x : BitVec 32) : 0 + x = x := BitVec.zero_add x
    have hnot : ¬(delay.toNat = 0 ∨ delay.toNat < debt) := not_or.mpr ⟨hpos, hsmall⟩
    have hrest : (s.target + delay - s.current).toNat =
        s.target.toNat + delay.toNat - s.current.toNat := by
      rw [BitVec.toNat_sub_of_le, htarget]
      rw [BitVec.le_def, htarget]
      omega
    rw [if_neg fun hlt => hsmall (hskip.mp hlt), if_neg hpos, if_neg hsmall, if_neg hnot]
    by_cases hshort : delay < minPktSize
    · have hshort' : delay.toNat < minPktSize.toNat := hshort
      rw [if_pos hshort]
      dsimp only
      rw [optimumSize_of_lt hmin, hzero, BitVec.sub_self]
      refine ⟨rfl, ⟨?_, hminLt, ?_⟩, ?_⟩
      · rw [hrest]
        dsimp only
        omega
      · omega
      · rw [Option.toList, wireBytes_singleton hlow]
        omega
    · have hlong : minPktSize.toNat ≤ delay.toNat := Nat.not_lt.mp hshort
      rw [if_neg hshort]
      dsimp only
      rw [optimumSize_of_lt hlt, hzero, BitVec.sub_self]
      refine ⟨rfl, ⟨?_, hdelayLt, ?_⟩, ?_⟩
      · rw [hrest]
        dsimp only
        omega
      · omega
      · have hlow' : 20 ≤ delay := Nat.le_trans hlow hlong
        rw [Option.toList, wireBytes_singleton hlow']
        omega

/-- **One gap** is paced. -/
theorem Gap.paced (hlow : 20 ≤ minPktSize) (hmin : minPktSize < 1538)
    (h : s.Owes minPktSize debt) (hlt : delay < 1538)
    (hgap : Gap minPktSize s delay s' frames) :
    s'.Owes minPktSize (Pacing.settle minPktSize.toNat debt delay.toNat) ∧
      wireBytes frames = Pacing.gap minPktSize.toNat debt delay.toNat := by
  cases hgap with
  | done s => exact ⟨h, rfl⟩
  | turn hdelay hrest =>
    obtain ⟨hzero, howes, hbytes⟩ := getDelayPktBadCrc_paced hlow hmin h hlt hdelay
    rw [hzero] at hrest
    obtain ⟨rfl, rfl⟩ := hrest.of_zero
    rw [List.append_nil]
    exact ⟨howes, hbytes⟩

/-- **The packets of a call** are paced. -/
theorem Stream.paced {udata64 : P → BitVec 64} {loadPkts : List P} {out : List (Frame P)}
    (hlow : 20 ≤ minPktSize) (hmin : minPktSize < 1538) (h : s.Owes minPktSize debt)
    (hlt : ∀ d ∈ asked udata64 loadPkts, d < 1538)
    (hstream : Stream udata64 minPktSize s loadPkts s' out) :
    s'.Owes minPktSize (Pacing.debtAfter minPktSize.toNat debt (asked udata64 loadPkts)) ∧
      wireBytes (bads out) = Pacing.made minPktSize.toNat debt (asked udata64 loadPkts) := by
  induction hstream generalizing debt with
  | done s => exact ⟨h, rfl⟩
  | packet hgap hstream ih =>
    obtain ⟨hfirst, hlt⟩ := List.forall_mem_cons.mp hlt
    obtain ⟨howes, hbytes⟩ := hgap.paced hlow hmin h hfirst
    obtain ⟨howes', hbytes'⟩ := ih howes hlt
    refine ⟨howes', ?_⟩
    rw [bads_gap, wireBytes_append, hbytes, hbytes']
    rfl

/-- Calls of one thread, one after the other: the counters afterwards, and all that is sent. -/
def sendCalls (udata64 : P → BitVec 64) (minPktSize : BitVec 32) :
    DelayState → List (List P) → Option (DelayState × List (Frame P))
  | s, [] => some (s, [])
  | s, loadPkts :: calls => do
    let st ← sendAllPackets udata64 minPktSize s loadPkts
    let (s', out) ← sendCalls udata64 minPktSize st.delay calls
    return (s', st.pkts.sent.flatten ++ out)

/-- The fillers of two streams. -/
theorem bads_append (out out' : List (Frame P)) : bads (out ++ out') = bads out ++ bads out' :=
  List.filterMap_append

/-- The gaps of two lists, one after the other. -/
theorem asked_append (udata64 : P → BitVec 64) (loadPkts loadPkts' : List P) :
    asked udata64 (loadPkts ++ loadPkts') = asked udata64 loadPkts ++ asked udata64 loadPkts' :=
  List.map_append

/-- Packets behind others, with the counters that those have left. -/
theorem Stream.append {udata64 : P → BitVec 64} {loadPkts loadPkts' : List P} {s₁ : DelayState}
    {out out' : List (Frame P)} (h : Stream udata64 minPktSize s loadPkts s₁ out)
    (h' : Stream udata64 minPktSize s₁ loadPkts' s' out') :
    Stream udata64 minPktSize s (loadPkts ++ loadPkts') s' (out ++ out') := by
  induction h with
  | done s => exact h'
  | packet hgap h ih =>
    rw [List.cons_append, List.append_assoc, List.cons_append]
    exact .packet hgap (ih h')

/-- **All calls.** They end, and send what one call with all packets would. -/
theorem sendCalls_stream (udata64 : P → BitVec 64) (hmin : minPktSize < 1538) (s : DelayState)
    (calls : List (List P)) :
    ∃ s' out, sendCalls udata64 minPktSize s calls = some (s', out) ∧
      Stream udata64 minPktSize s calls.flatten s' out := by
  induction calls generalizing s with
  | nil => exact ⟨s, [], rfl, .done s⟩
  | cons loadPkts calls ih =>
    obtain ⟨t, hsend, -, hstream, -⟩ := sendLoop_ends udata64 hmin s loadPkts
    obtain ⟨s', out, hcalls, hrest⟩ := ih t.delay
    refine ⟨s', t.pkts.sent.flatten ++ out, ?_, hstream.append hrest⟩
    rw [sendCalls, hsend]
    simp only [Option.bind_eq_bind, Option.bind_some, hcalls]
    rfl

/-- **The pace.** As long as all gaps are below 1538 bytes, the frames of all calls of a thread make
up the gaps that were asked for, and `min_pkt_size` bytes more at most, at any time and for any
number of packets. Preamble, delimiter and inter-frame gap fit into `min_pkt_size`: what is left of
a shorter frame would be a number below zero. -/
theorem sendAllPackets_pace (udata64 : P → BitVec 64) (hlow : 20 ≤ minPktSize)
    (hmin : minPktSize < 1538) (calls : List (List P))
    (hlt : ∀ d ∈ asked udata64 calls.flatten, d < 1538) :
    ∃ s' out, sendCalls udata64 minPktSize ⟨0, 0⟩ calls = some (s', out) ∧
      (asked udata64 calls.flatten).sum ≤ wireBytes (bads out) ∧
      wireBytes (bads out) ≤ (asked udata64 calls.flatten).sum + minPktSize.toNat := by
  have hstart : (⟨0, 0⟩ : DelayState).Owes minPktSize 0 := ⟨rfl, by decide, Nat.zero_le _⟩
  obtain ⟨s', out, hcalls, hstream⟩ := sendCalls_stream udata64 hmin ⟨0, 0⟩ calls
  obtain ⟨-, hbytes⟩ := hstream.paced hlow hmin hstart hlt
  refine ⟨s', out, hcalls, ?_, ?_⟩
  · rw [hbytes]
    exact Pacing.sum_le_made _ _
  · rw [hbytes]
    exact Pacing.made_le_sum _ _

/-- Two calls after each other. -/
theorem sendAllPackets_pace_short :
    ∃ s' out, sendCalls id 76 ⟨0, 0⟩ [[10, 10, 1000], [0, 500]] = some (s', out) ∧
      (asked id [10, 10, 1000, 0, 500]).sum ≤ wireBytes (bads out) ∧
      wireBytes (bads out) ≤ (asked id [10, 10, 1000, 0, 500]).sum + 76 :=
  sendAllPackets_pace id (by decide) (by decide) [[10, 10, 1000], [0, 500]] (by decide)

/-! ### Gaps of 1538 bytes and more -/

/-- A gap has one way to be made. -/
theorem Gap.unique {s₁ s₂ : DelayState} {frames₁ frames₂ : List DelayPkt}
    (h₁ : Gap minPktSize s delay s₁ frames₁) (h₂ : Gap minPktSize s delay s₂ frames₂) :
    s₁ = s₂ ∧ frames₁ = frames₂ := by
  induction h₁ generalizing frames₂ with
  | done s =>
    obtain ⟨rfl, rfl⟩ := h₂.of_zero
    exact ⟨rfl, rfl⟩
  | turn hdelay h₁ ih =>
    cases h₂ with
    | done => exact absurd rfl hdelay
    | turn hdelay' h₂ =>
      obtain ⟨rfl, rfl⟩ := ih h₂
      exact ⟨rfl, rfl⟩

/-- A stream is determined by its packets and the state at its start. -/
theorem Stream.unique {udata64 : P → BitVec 64} {loadPkts : List P} {s₁ s₂ : DelayState}
    {out₁ out₂ : List (Frame P)} (h₁ : Stream udata64 minPktSize s loadPkts s₁ out₁)
    (h₂ : Stream udata64 minPktSize s loadPkts s₂ out₂) : s₁ = s₂ ∧ out₁ = out₂ := by
  induction h₁ generalizing out₂ with
  | done s =>
    cases h₂
    exact ⟨rfl, rfl⟩
  | packet hgap h₁ ih =>
    cases h₂ with
    | packet hgap' h₂ =>
      obtain ⟨rfl, rfl⟩ := hgap.unique hgap'
      obtain ⟨rfl, rfl⟩ := ih h₂
      exact ⟨rfl, rfl⟩

/-- One gap of 2063 bytes, and seven of one byte. -/
def longCycle : List (BitVec 64) := [2063, 1, 1, 1, 1, 1, 1, 1]

/-- The long gap is made by two frames. The second call for it counts its 525 bytes again, so that
each of the short gaps gets a frame of its own. -/
theorem longCycle_stream :
    ∃ out, Stream id 76 ⟨76, 76⟩ longCycle ⟨76, 76⟩ out ∧ wireBytes (bads out) = 2595 := by
  have hlong : Gap 76 ⟨76, 76⟩ 2063 ⟨1050, 525⟩ [⟨1518, 1518⟩, ⟨505, 505⟩] :=
    .turn (by decide) (.turn (by decide) (.done _))
  have hshort : ∀ t c t', getDelayPktBadCrc 76 ⟨t, c⟩ 1 = (⟨t', 76⟩, 0, some ⟨56, 56⟩) →
      Gap 76 ⟨t, c⟩ 1 ⟨t', 76⟩ [⟨56, 56⟩] := by
    intro t c t' hget
    have hturn : Gap 76 ⟨t, c⟩ 1 ⟨t', 76⟩
        ((getDelayPktBadCrc 76 ⟨t, c⟩ 1).2.2.toList ++ []) := by
      apply Gap.turn (by decide)
      rw [hget]
      exact .done _
    rwa [hget] at hturn
  have h1 := hshort 1050 525 526 (by decide)
  have h2 := hshort 526 76 451 (by decide)
  have h3 := hshort 451 76 376 (by decide)
  have h4 := hshort 376 76 301 (by decide)
  have h5 := hshort 301 76 226 (by decide)
  have h6 := hshort 226 76 151 (by decide)
  have h7 := hshort 151 76 76 (by decide)
  refine ⟨_, .packet hlong (.packet h1 (.packet h2 (.packet h3 (.packet h4 (.packet h5
    (.packet h6 (.packet h7 (.done _)))))))), ?_⟩
  decide

/-- The stream of the example, cycle by cycle. -/
theorem longCycles_stream (n : ℕ) :
    ∃ out, Stream id 76 ⟨76, 76⟩ (List.replicate n longCycle).flatten ⟨76, 76⟩ out ∧
      wireBytes (bads out) = 2595 * n := by
  induction n with
  | zero => exact ⟨[], .done _, rfl⟩
  | succ n ih =>
    obtain ⟨out, hstream, hbytes⟩ := longCycle_stream
    obtain ⟨out', hstream', hbytes'⟩ := ih
    refine ⟨out ++ out', ?_, ?_⟩
    · rw [List.replicate_succ, List.flatten_cons]
      exact hstream.append hstream'
    · rw [bads_append, wireBytes_append, hbytes, hbytes', Nat.mul_succ, Nat.add_comm]

/-- The delays that the example asks for. -/
theorem asked_longCycles (n : ℕ) :
    (asked id (List.replicate n longCycle).flatten).sum = 2070 * n := by
  induction n with
  | zero => rfl
  | succ n ih =>
    have hcycle : (asked id longCycle).sum = 2070 := by decide
    rw [List.replicate_succ, List.flatten_cons, asked_append, List.sum_append, ih, hcycle,
      Nat.mul_succ, Nat.add_comm]

/-- **Longer gaps.** With gaps of 1538 bytes and more the frames of a thread can exceed the gaps by
any number of bytes, over calls of a few packets each: the pace of `sendAllPackets_pace` is lost. -/
theorem sendAllPackets_late (bound : ℕ) :
    ∃ calls s' out, (∀ loadPkts ∈ calls, loadPkts.length ≤ 65535) ∧
      sendCalls id 76 ⟨0, 0⟩ calls = some (s', out) ∧
      (asked id calls.flatten).sum + bound < wireBytes (bads out) := by
  obtain ⟨out, hstream, hbytes⟩ := longCycles_stream (bound + 1)
  -- a gap of 76 bytes leads from the counters of a new thread to those of a cycle
  have hgap : Gap 76 ⟨0, 0⟩ 76 ⟨76, 76⟩ [⟨56, 56⟩] := .turn (by decide) (.done _)
  have hfirst : Stream id 76 ⟨0, 0⟩ [76] ⟨76, 76⟩ ([⟨56, 56⟩].map .bad ++ [.load 76]) :=
    .packet hgap (.done _)
  have hmin : (76 : BitVec 32) < 1538 := by decide
  obtain ⟨s', sent, hcalls, hstream'⟩ :=
    sendCalls_stream id hmin ⟨0, 0⟩ ([76] :: List.replicate (bound + 1) longCycle)
  obtain ⟨-, rfl⟩ := hstream'.unique (hfirst.append hstream)
  refine ⟨_, s', _, ?_, hcalls, ?_⟩
  · intro loadPkts hmem
    rcases List.mem_cons.mp hmem with rfl | hmem
    · decide
    · rw [List.eq_of_mem_replicate hmem]
      decide
  · rw [List.flatten_cons, bads_append, wireBytes_append, hbytes, asked_append, List.sum_append,
      asked_longCycles]
    have hasked : (asked id [(76 : BitVec 64)]).sum = 76 := by decide
    have hframe :
        wireBytes (bads ([⟨56, 56⟩].map .bad ++ [Frame.load (76 : BitVec 64)])) = 76 := by
      decide
    rw [hasked, hframe]
    omega

end Rids.Generator
