import Repath.Lib.Memory

/-!
# Packet buffers, clocks and abnormal ends

What both control planes take from DPDK and the C library: a packet buffer with
its data area, the reading of a `timespec`, and the two ways a call can end
without returning.
-/

namespace Repath

/-- How a call ends without returning: `undefined` is an access outside an
array, a null dereference or a division by zero, `rteExit` a call of
`rte_exit`. -/
inductive Stop
  | undefined
  | rteExit
  deriving DecidableEq, Repr

structure Timespec where
  tvSec : UInt64
  tvNsec : UInt64
  deriving DecidableEq, Repr

def Timespec.ns (ts : Timespec) : UInt64 := ts.tvSec * 1000000000 + ts.tvNsec

theorem Timespec.ns_zero (ns : UInt64) : (⟨0, ns⟩ : Timespec).ns = ns := by
  simp [Timespec.ns]

inductive Mempool
  | mbufPool
  | hopaCpMp
  | dpdkMp (id : Nat)
  deriving DecidableEq, Repr

/-- `struct rte_mbuf`: the pool that takes the buffer back, the data area from
`data_off` on, and the two lengths.  A byte of `data` at or past `dataLen` is
whatever the buffer held before. -/
structure RteMbuf where
  pool : Mempool
  data : Mem
  dataLen : Nat
  pktLen : Nat

def zeroBuf : RteMbuf := { pool := .mbufPool, data := fun _ => 0, dataLen := 0, pktLen := 0 }

/-- `rte_pktmbuf_alloc` on the buffer `m` taken from its pool: the lengths are
reset, the data area is not cleared. -/
def rtePktmbufReset (m : RteMbuf) : RteMbuf := { m with dataLen := 0, pktLen := 0 }

/-- `rte_pktmbuf_append`: the offset of the appended bytes and the longer
buffer. -/
def rtePktmbufAppend (m : RteMbuf) (len : Nat) : Nat × RteMbuf :=
  (m.dataLen, { m with dataLen := m.dataLen + len, pktLen := m.pktLen + len })

def RteMbuf.store (m : RteMbuf) (f : Mem → Mem) : RteMbuf := { m with data := f m.data }

@[simp] theorem fst_rtePktmbufAppend (m : RteMbuf) (len : Nat) :
    (rtePktmbufAppend m len).1 = m.dataLen := rfl

@[simp] theorem dataLen_rtePktmbufAppend (m : RteMbuf) (len : Nat) :
    (rtePktmbufAppend m len).2.dataLen = m.dataLen + len := rfl

@[simp] theorem pktLen_rtePktmbufAppend (m : RteMbuf) (len : Nat) :
    (rtePktmbufAppend m len).2.pktLen = m.pktLen + len := rfl

@[simp] theorem data_rtePktmbufAppend (m : RteMbuf) (len : Nat) :
    (rtePktmbufAppend m len).2.data = m.data := rfl

@[simp] theorem pool_rtePktmbufAppend (m : RteMbuf) (len : Nat) :
    (rtePktmbufAppend m len).2.pool = m.pool := rfl

@[simp] theorem dataLen_store (m : RteMbuf) (f : Mem → Mem) :
    (m.store f).dataLen = m.dataLen := rfl

@[simp] theorem pktLen_store (m : RteMbuf) (f : Mem → Mem) :
    (m.store f).pktLen = m.pktLen := rfl

@[simp] theorem data_store (m : RteMbuf) (f : Mem → Mem) : (m.store f).data = f m.data := rfl

@[simp] theorem pool_store (m : RteMbuf) (f : Mem → Mem) : (m.store f).pool = m.pool := rfl

@[simp] theorem dataLen_rtePktmbufReset (m : RteMbuf) : (rtePktmbufReset m).dataLen = 0 := rfl

@[simp] theorem pktLen_rtePktmbufReset (m : RteMbuf) : (rtePktmbufReset m).pktLen = 0 := rfl

@[simp] theorem data_rtePktmbufReset (m : RteMbuf) : (rtePktmbufReset m).data = m.data := rfl

end Repath
