import DataPropagator.Common.Node
import DataPropagator.Lib.ByteOrder
import DataPropagator.Lib.ParentForest

/-!
# Shared helpers

`utils.c`: looking a row up by its id, climbing to the root of a row, and turning a
64-bit number from network byte order.  The 32-bit `htonl` and `ntohl` of the socket
library and the 64-bit `host_to_network64` of `propagator_client.c` stand beside the
latter.  The host is little-endian.
-/

namespace DataPropagator

/-! ## Rows -/

/-- `node_find_by_id`. -/
def nodeFindById (nodes : List NodeInfo) (id : CString) : Option Nat :=
  nodes.findIdx? fun node => eqString node.id id

/-- `find_root` with a bound on the steps of its loop. -/
def findRoot (nodes : List NodeInfo) (fuel : Nat) (n : Nat) : Option Nat :=
  Forest.climb (parentOf nodes) fuel n

/-! ## Words in memory -/

/-- The four bytes of a `uint32_t` in memory. -/
def bytesOfU32 (x : UInt32) : Bytes := ByteOrder.store 4 x.toNat

/-- The eight bytes of a `uint64_t` in memory. -/
def bytesOfU64 (x : UInt64) : Bytes := ByteOrder.store 8 x.toNat

/-- The `uint32_t` that four bytes of memory hold. -/
def u32OfBytes (b : Bytes) : UInt32 := UInt32.ofNat (ByteOrder.load b)

/-- The `uint64_t` that eight bytes of memory hold. -/
def u64OfBytes (b : Bytes) : UInt64 := UInt64.ofNat (ByteOrder.load b)

/-- `htonl`. -/
def htonl (x : UInt32) : UInt32 := UInt32.ofNat (ByteOrder.swap 4 x.toNat)

/-- `ntohl`. -/
def ntohl (x : UInt32) : UInt32 := UInt32.ofNat (ByteOrder.swap 4 x.toNat)

/-- `host_to_network64`. -/
def hostToNetwork64 (x : UInt64) : UInt64 :=
  let hi := (x >>> 32).toUInt32
  let lo := x.toUInt32
  let hi := htonl hi
  let lo := htonl lo
  (lo.toUInt64 <<< 32) ||| hi.toUInt64

/-- `network_to_host64`. -/
def networkToHost64 (x : UInt64) : UInt64 :=
  let hiNet := x.toUInt32
  let loNet := (x >>> 32).toUInt32
  let hi := ntohl hiNet
  let lo := ntohl loNet
  (hi.toUInt64 <<< 32) ||| lo.toUInt64

theorem toNat_htonl (x : UInt32) : (htonl x).toNat = ByteOrder.swap 4 x.toNat :=
  UInt32.toNat_ofNat_of_lt' (ByteOrder.swap_lt 4 x.toNat)

/-- A word in network order is stored as the big-endian bytes of the word. -/
theorem bytesOfU32_htonl (x : UInt32) : bytesOfU32 (htonl x) = ByteOrder.bigEndian 4 x.toNat := by
  rw [bytesOfU32, toNat_htonl, ByteOrder.store_swap]

theorem ntohl_htonl (x : UInt32) : ntohl (htonl x) = x := by
  apply UInt32.toNat_inj.mp
  show (UInt32.ofNat _).toNat = _
  rw [toNat_htonl, ByteOrder.swap_swap 4 x.toNat_lt, UInt32.ofNat_toNat]

theorem htonl_ntohl (x : UInt32) : htonl (ntohl x) = x := ntohl_htonl x

/-- A 64-bit number put together from two words, as a number. -/
theorem toNat_words (hi lo : UInt32) :
    ((hi.toUInt64 <<< 32) ||| lo.toUInt64).toNat = lo.toNat + 256 ^ 4 * hi.toNat := by
  have hhi := hi.toNat_lt
  have hlo := lo.toNat_lt
  have hshift : (hi.toUInt64 <<< 32).toNat = hi.toNat <<< 32 := by
    rw [UInt64.toNat_shiftLeft, UInt32.toNat_toUInt64]
    show hi.toNat <<< 32 % 2 ^ 64 = _
    rw [Nat.shiftLeft_eq]
    omega
  rw [UInt64.toNat_or, hshift, UInt32.toNat_toUInt64,
    ← Nat.shiftLeft_add_eq_or_of_lt hlo, Nat.shiftLeft_eq]
  omega

/-- The halves of a number put together from two words. -/
theorem words_halves (hi lo : UInt32) :
    ((hi.toUInt64 <<< 32) ||| lo.toUInt64).toUInt32 = lo ∧
      (((hi.toUInt64 <<< 32) ||| lo.toUInt64) >>> 32).toUInt32 = hi := by
  have h := toNat_words hi lo
  have hhi := hi.toNat_lt
  have hlo := lo.toNat_lt
  constructor
  · apply UInt32.toNat_inj.mp
    rw [UInt64.toNat_toUInt32, h]
    omega
  · apply UInt32.toNat_inj.mp
    rw [UInt64.toNat_toUInt32, UInt64.toNat_shiftRight, h]
    show ((lo.toNat + 256 ^ 4 * hi.toNat) >>> 32) % 2 ^ 32 = _
    rw [Nat.shiftRight_eq_div_pow]
    omega

/-- A number is put together from its halves. -/
theorem words_of_halves (x : UInt64) :
    (((x >>> 32).toUInt32.toUInt64 <<< 32) ||| x.toUInt32.toUInt64) = x := by
  apply UInt64.toNat_inj.mp
  have hx := x.toNat_lt
  have hhi : (x >>> 32).toUInt32.toNat = x.toNat / 2 ^ 32 := by
    rw [UInt64.toNat_toUInt32, UInt64.toNat_shiftRight]
    show (x.toNat >>> 32) % 2 ^ 32 = _
    rw [Nat.shiftRight_eq_div_pow]
    omega
  rw [toNat_words, UInt64.toNat_toUInt32, hhi]
  omega

/-- The two hand-written swaps are inverse to one another. -/
theorem networkToHost64_hostToNetwork64 (x : UInt64) :
    networkToHost64 (hostToNetwork64 x) = x := by
  have h := words_halves (htonl x.toUInt32) (htonl (x >>> 32).toUInt32)
  simp only [networkToHost64, hostToNetwork64]
  rw [h.1, h.2, ntohl_htonl, ntohl_htonl]
  exact words_of_halves x

theorem hostToNetwork64_networkToHost64 (x : UInt64) :
    hostToNetwork64 (networkToHost64 x) = x := by
  have h := words_halves (ntohl x.toUInt32) (ntohl (x >>> 32).toUInt32)
  simp only [networkToHost64, hostToNetwork64]
  rw [h.1, h.2, htonl_ntohl, htonl_ntohl]
  exact words_of_halves x

/-- A 64-bit number in network order is stored as the big-endian bytes of the
number. -/
theorem bytesOfU64_hostToNetwork64 (x : UInt64) :
    bytesOfU64 (hostToNetwork64 x) = ByteOrder.bigEndian 8 x.toNat := by
  have hlow := (htonl (x >>> 32).toUInt32).toNat_lt
  have hx : x.toNat = x.toUInt32.toNat + 256 ^ 4 * (x >>> 32).toUInt32.toNat := by
    rw [← toNat_words, words_of_halves]
  have hlo := x.toUInt32.toNat_lt
  simp only [bytesOfU64, hostToNetwork64]
  rw [toNat_words, show (8 : Nat) = 4 + 4 from rfl, ByteOrder.store_add 4 4 _ hlow, toNat_htonl,
    toNat_htonl, ByteOrder.store_swap, ByteOrder.store_swap, hx, ByteOrder.bigEndian,
    ByteOrder.bigEndian, ByteOrder.bigEndian, ByteOrder.store_add 4 4 _ hlo, List.reverse_append]

theorem u32OfBytes_bytesOfU32 (x : UInt32) : u32OfBytes (bytesOfU32 x) = x := by
  rw [u32OfBytes, bytesOfU32, ByteOrder.load_store 4 x.toNat_lt, UInt32.ofNat_toNat]

theorem u64OfBytes_bytesOfU64 (x : UInt64) : u64OfBytes (bytesOfU64 x) = x := by
  rw [u64OfBytes, bytesOfU64, ByteOrder.load_store 8 x.toNat_lt, UInt64.ofNat_toNat]

theorem bytesOfU32_u32OfBytes {b : Bytes} (h : b.length = 4) : bytesOfU32 (u32OfBytes b) = b := by
  have hlt := ByteOrder.load_lt b
  rw [h] at hlt
  rw [bytesOfU32, u32OfBytes, UInt32.toNat_ofNat_of_lt' hlt, ← h, ByteOrder.store_load]

theorem bytesOfU64_u64OfBytes {b : Bytes} (h : b.length = 8) : bytesOfU64 (u64OfBytes b) = b := by
  have hlt := ByteOrder.load_lt b
  rw [h] at hlt
  rw [bytesOfU64, u64OfBytes, UInt64.toNat_ofNat_of_lt' hlt, ← h, ByteOrder.store_load]

/-- Four bytes in network order are the big-endian bytes of the word they hold. -/
theorem bigEndian_ntohl {b : Bytes} (h : b.length = 4) :
    ByteOrder.bigEndian 4 (ntohl (u32OfBytes b)).toNat = b := by
  rw [← bytesOfU32_htonl, htonl_ntohl, bytesOfU32_u32OfBytes h]

theorem bigEndian_networkToHost64 {b : Bytes} (h : b.length = 8) :
    ByteOrder.bigEndian 8 (networkToHost64 (u64OfBytes b)).toNat = b := by
  rw [← bytesOfU64_hostToNetwork64, hostToNetwork64_networkToHost64, bytesOfU64_u64OfBytes h]

end DataPropagator
