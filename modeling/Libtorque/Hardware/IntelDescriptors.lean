import Libtorque.Hardware.Arch

/-! # Intel's one-byte cache and TLB descriptors -/
namespace Libtorque.Hardware

structure IntelCacheDescriptor where
  descriptor : Nat
  linesize : Nat
  totalsize : Nat
  associativity : Nat
  level : Nat
  memtype : TorqueMemtype
deriving DecidableEq, Repr

structure IntelTlbDescriptor where
  descriptor : Nat
  pagesize : Nat
  entries : Nat
  associativity : Nat
  level : Nat
  tlbtype : TorqueMemtype
deriving DecidableEq, Repr

def intelCacheDescriptors : List IntelCacheDescriptor := [
  ⟨0x06, 32, 8 * 1024, 4, 1, .code⟩,
  ⟨0x08, 32, 16 * 1024, 4, 1, .code⟩,
  ⟨0x09, 64, 32 * 1024, 4, 1, .code⟩,
  ⟨0x0a, 32, 8 * 1024, 2, 1, .data⟩,
  ⟨0x0c, 32, 16 * 1024, 4, 1, .data⟩,
  ⟨0x0d, 64, 16 * 1024, 4, 1, .data⟩,
  ⟨0x21, 64, 256 * 1024, 8, 2, .unified⟩,
  ⟨0x22, 64, 512 * 1024, 4, 3, .unified⟩,
  ⟨0x23, 64, 1024 * 1024, 8, 3, .unified⟩,
  ⟨0x25, 64, 2 * 1024 * 1024, 8, 3, .unified⟩,
  ⟨0x29, 64, 4 * 1024 * 1024, 8, 3, .unified⟩,
  ⟨0x2c, 64, 32 * 1024, 8, 1, .data⟩,
  ⟨0x30, 64, 32 * 1024, 8, 1, .code⟩,
  ⟨0x39, 64, 128 * 1024, 4, 2, .unified⟩,
  ⟨0x3a, 64, 192 * 1024, 6, 2, .unified⟩,
  ⟨0x3b, 64, 128 * 1024, 2, 2, .unified⟩,
  ⟨0x3c, 64, 256 * 1024, 4, 2, .unified⟩,
  ⟨0x3d, 64, 384 * 1024, 6, 2, .unified⟩,
  ⟨0x3e, 64, 512 * 1024, 4, 2, .unified⟩,
  ⟨0x41, 32, 128 * 1024, 4, 2, .unified⟩,
  ⟨0x42, 32, 256 * 1024, 4, 2, .unified⟩,
  ⟨0x43, 32, 512 * 1024, 4, 2, .unified⟩,
  ⟨0x44, 32, 1024 * 1024, 4, 2, .unified⟩,
  ⟨0x45, 32, 2 * 1024 * 1024, 4, 2, .unified⟩,
  ⟨0x46, 64, 4 * 1024 * 1024, 4, 3, .unified⟩,
  ⟨0x47, 64, 8 * 1024 * 1024, 8, 3, .unified⟩,
  ⟨0x48, 64, 3 * 1024 * 1024, 12, 2, .unified⟩,
  ⟨0x49, 64, 4 * 1024 * 1024, 16, 2, .unified⟩,
  ⟨0x4a, 64, 6 * 1024 * 1024, 12, 3, .unified⟩,
  ⟨0x4b, 64, 8 * 1024 * 1024, 16, 3, .unified⟩,
  ⟨0x4c, 64, 12 * 1024 * 1024, 12, 3, .unified⟩,
  ⟨0x4d, 64, 16 * 1024 * 1024, 16, 3, .unified⟩,
  ⟨0x4e, 64, 6 * 1024 * 1024, 24, 2, .unified⟩,
  ⟨0x60, 64, 16 * 1024, 8, 1, .data⟩,
  ⟨0x66, 64, 8 * 1024, 4, 1, .data⟩,
  ⟨0x67, 64, 16 * 1024, 4, 1, .data⟩,
  ⟨0x68, 64, 32 * 1024, 4, 1, .data⟩,
  ⟨0x76, 64, 1024 * 1024, 4, 2, .unified⟩,
  ⟨0x78, 64, 1024 * 1024, 4, 2, .unified⟩,
  ⟨0x79, 64, 128 * 1024, 8, 2, .unified⟩,
  ⟨0x7a, 64, 256 * 1024, 8, 2, .unified⟩,
  ⟨0x7b, 64, 512 * 1024, 8, 2, .unified⟩,
  ⟨0x7c, 64, 1 * 1024 * 1024, 8, 2, .unified⟩,
  ⟨0x7d, 64, 2 * 1024 * 1024, 8, 2, .unified⟩,
  ⟨0x7f, 64, 512 * 1024, 2, 2, .unified⟩,
  ⟨0x80, 64, 512 * 1024, 8, 2, .unified⟩,
  ⟨0x82, 32, 256 * 1024, 8, 2, .unified⟩,
  ⟨0x83, 32, 512 * 1024, 8, 2, .unified⟩,
  ⟨0x84, 32, 1 * 1024 * 1024, 8, 2, .unified⟩,
  ⟨0x85, 32, 2 * 1024 * 1024, 8, 2, .unified⟩,
  ⟨0x86, 64, 512 * 1024, 4, 2, .unified⟩,
  ⟨0x87, 64, 1 * 1024, 8, 2, .unified⟩,
  ⟨0xd0, 64, 512 * 1024, 4, 3, .unified⟩,
  ⟨0xd1, 64, 1024 * 1024, 4, 3, .unified⟩,
  ⟨0xd2, 64, 2 * 1024 * 1024, 4, 3, .unified⟩,
  ⟨0xd6, 64, 12 * 1024 * 1024, 8, 3, .unified⟩,
  ⟨0xd7, 64, 18 * 1024 * 1024, 8, 3, .unified⟩,
  ⟨0xd8, 64, 24 * 1024 * 1024, 8, 3, .unified⟩,
  ⟨0xdc, 64, (1024 + 512) * 1024, 12, 3, .unified⟩,
  ⟨0xdd, 64, 3 * 1024 * 1024, 12, 3, .unified⟩,
  ⟨0xde, 64, 6 * 1024 * 1024, 12, 3, .unified⟩,
  ⟨0xe2, 64, 2 * 1024 * 1024, 16, 3, .unified⟩,
  ⟨0xe3, 64, 4 * 1024 * 1024, 16, 3, .unified⟩,
  ⟨0xe4, 64, 8 * 1024 * 1024, 16, 3, .unified⟩,
  ⟨0xea, 64, 12 * 1024 * 1024, 24, 3, .unified⟩,
  ⟨0xeb, 64, 18 * 1024 * 1024, 24, 3, .unified⟩,
  ⟨0xec, 64, 24 * 1024 * 1024, 24, 3, .unified⟩]

def intelTlbDescriptors : List IntelTlbDescriptor := [
  ⟨0x01, 4 * 1024, 32, 4, 2, .code⟩,
  ⟨0x02, 4 * 1024 * 1024, 2, 2, 2, .code⟩,
  ⟨0x03, 4 * 1024, 64, 4, 2, .data⟩,
  ⟨0x04, 4 * 1024 * 1024, 8, 4, 2, .data⟩,
  ⟨0x05, 4 * 1024 * 1024, 32, 4, 2, .data⟩,
  ⟨0x50, 4 * 1024 * 1024, 64, 64, 1, .code⟩,
  ⟨0x51, 4 * 1024, 128, 128, 1, .code⟩,
  ⟨0x52, 4 * 1024 * 1024, 256, 256, 1, .code⟩,
  ⟨0x55, 4 * 1024, 7, 7, 2, .code⟩,
  ⟨0x56, 4 * 1024 * 1024, 16, 4, 1, .data⟩,
  ⟨0x57, 4 * 1024, 16, 4, 1, .data⟩,
  ⟨0x5a, 4 * 1024 * 1024, 32, 4, 1, .data⟩,
  ⟨0x5b, 4 * 1024, 64, 64, 2, .data⟩,
  ⟨0x5c, 4 * 1024, 128, 128, 2, .data⟩,
  ⟨0x5d, 4 * 1024, 256, 256, 2, .data⟩,
  ⟨0x61, 4 * 1024, 48, 48, 2, .code⟩,
  ⟨0x63, 1 * 1024 * 1024 * 1024, 4, 4, 3, .data⟩,
  ⟨0xb0, 4 * 1024, 128, 4, 1, .code⟩,
  ⟨0xb1, 2 * 1024 * 1024, 8, 4, 1, .code⟩,
  ⟨0xb2, 4 * 1024, 64, 4, 1, .code⟩,
  ⟨0xb3, 4 * 1024, 128, 4, 1, .data⟩,
  ⟨0xb4, 4 * 1024, 256, 4, 1, .data⟩,
  ⟨0xb5, 4 * 1024, 64, 8, 1, .code⟩,
  ⟨0xb6, 4 * 1024, 128, 8, 1, .code⟩,
  ⟨0xba, 4 * 1024, 64, 4, 1, .data⟩,
  ⟨0xc0, 4 * 1024, 8, 4, 1, .data⟩,
  ⟨0xc1, 4 * 1024, 1024, 8, 2, .unified⟩,
  ⟨0xc2, 4 * 1024, 16, 4, 1, .data⟩,
  ⟨0xc3, 4 * 1024, 1536, 6, 2, .unified⟩,
  ⟨0xc4, 4 * 1024, 32, 4, 1, .data⟩,
  ⟨0xca, 4 * 1024, 512, 4, 2, .data⟩]

/-- Sizes of trace caches, which are not recorded. -/
def intelTraceDescriptors : List Nat := [0x70, 0x71, 0x72, 0x73]

end Libtorque.Hardware
