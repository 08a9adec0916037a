import Repath.Dpdk.Headers

/-!
# Received frames

A frame lies in one buffer, and a read past its length is outside it.  The
parsers look at fixed offsets; what a frame is, is read at the offsets that its
own header length gives.
-/

namespace Repath

structure Frame where
  mbuf : RteMbuf
  single : mbuf.pktLen = mbuf.dataLen

def Frame.length (f : Frame) : Nat := f.mbuf.dataLen

/-- Read `n` bytes at `off`, if they are inside the frame. -/
def Frame.get {α : Type} (f : Frame) (get : Mem → Nat → α) (off n : Nat) : Except Stop α :=
  if off + n ≤ f.length then .ok (get f.mbuf.data off) else .error .undefined

theorem Frame.get_of_le {α : Type} {f : Frame} (get : Mem → Nat → α) {off n : Nat}
    (h : off + n ≤ f.length) : f.get get off n = .ok (get f.mbuf.data off) := by
  rw [Frame.get, if_pos h]

theorem Frame.get_eq_ok_iff {α : Type} {f : Frame} {get : Mem → Nat → α} {off n : Nat} {x : α} :
    f.get get off n = .ok x ↔ off + n ≤ f.length ∧ get f.mbuf.data off = x := by
  rw [Frame.get]
  split
  · rename_i h
    exact ⟨fun he => ⟨h, Except.ok.inj he⟩, fun he => congrArg Except.ok he.2⟩
  · rename_i h
    constructor
    · intro he
      cases he
    · exact fun he => absurd he.1 h

/-- A frame too short for an Ethernet header. -/
def emptyFrame : Frame := { mbuf := zeroBuf, single := rfl }

def versionIhlOf (m : RteMbuf) : UInt8 := m.data.get8 (ipv4Off + RteIpv4Hdr.versionIhl)
def fragmentOf (m : RteMbuf) : UInt16 := m.data.get16 (ipv4Off + RteIpv4Hdr.fragmentOffset)

def ipVersion (m : RteMbuf) : Nat := (versionIhlOf m).toNat / 16

/-- Bytes of the IPv4 header, by its own length field. -/
def ipv4HdrLen (m : RteMbuf) : Nat := 4 * ((versionIhlOf m).toNat % 16)

/-- The frame is a fragment: more fragments follow or the offset is not 0. -/
def IsFragment (m : RteMbuf) : Prop := fragmentOf m &&& 0x3fff ≠ 0

instance (m : RteMbuf) : Decidable (IsFragment m) := inferInstanceAs (Decidable (¬ _))

/-! ### The UDP header where the IPv4 header says it is -/

def ownUdpOff (m : RteMbuf) : Nat := ipv4Off + ipv4HdrLen m
def ownSrcPort (m : RteMbuf) : UInt16 := m.data.get16 (ownUdpOff m + RteUdpHdr.srcPort)
def ownDgramLen (m : RteMbuf) : UInt16 := m.data.get16 (ownUdpOff m + RteUdpHdr.dgramLen)

def udpPayload (m : RteMbuf) : List UInt8 :=
  m.data.read (ownUdpOff m + RteUdpHdr.size) ((ownDgramLen m).toNat - RteUdpHdr.size)

/-- An Ethernet II frame with an unfragmented UDP packet behind an IPv4 header of
20 bytes. -/
structure CarriesUdp (m : RteMbuf) : Prop where
  etherType : etherTypeOf m = rteEtherTypeIpv4
  version : ipVersion m = 4
  hdrLen : ipv4HdrLen m = RteIpv4Hdr.size
  whole : ¬ IsFragment m
  proto : nextProtoIdOf m = ipprotoUdp

theorem CarriesUdp.ownUdpOff {m : RteMbuf} (h : CarriesUdp m) : ownUdpOff m = udpOff := by
  rw [Repath.ownUdpOff, h.hdrLen]
  rfl

theorem CarriesUdp.ownSrcPort {m : RteMbuf} (h : CarriesUdp m) : ownSrcPort m = srcPortOf m := by
  rw [Repath.ownSrcPort, h.ownUdpOff]
  rfl

theorem CarriesUdp.ownDgramLen {m : RteMbuf} (h : CarriesUdp m) :
    ownDgramLen m = dgramLenOf m := by
  rw [Repath.ownDgramLen, h.ownUdpOff]
  rfl

/-- Version 4 and a header of 20 bytes are the one byte `0x45`. -/
theorem versionIhl_iff {m : RteMbuf} :
    ipVersion m = 4 ∧ ipv4HdrLen m = RteIpv4Hdr.size ↔ versionIhlOf m = 0x45 := by
  rw [ipVersion, ipv4HdrLen, ← UInt8.toNat_inj]
  show _ ∧ _ = 20 ↔ (versionIhlOf m).toNat = 69
  omega

end Repath
