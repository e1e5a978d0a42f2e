import LpStudio.Lib.Str

/-! # ZIP archives
Archives of stored entries with fixed metadata: local headers with the data, the central directory, its end
record.
-/
namespace Zip
open Str

def littleEndian (width n : ℕ) : Bytes := (List.range width).map fun i => UInt8.ofNat (n / 256 ^ i)

def crcBit (crc : ℕ) : ℕ := if crc % 2 = 1 then (crc >>> 1) ^^^ 0xedb88320 else crc >>> 1

/-- CRC-32 of the bytes. -/
def crc32 (bytes : Bytes) : ℕ :=
  0xffffffff ^^^ bytes.foldl (fun crc byte => (List.range 8).foldl (fun crc _ => crcBit crc)
    (crc ^^^ byte.toNat)) 0xffffffff

/-- The fields that the local and the central header share: version, flags, method, time, date, checksum,
sizes and the lengths of name and extra field. -/
def sharedHeader (entry : Text × Bytes) : Bytes :=
  littleEndian 2 10 ++ littleEndian 2 0 ++ littleEndian 2 0 ++ littleEndian 2 0 ++ littleEndian 2 0x21 ++
    littleEndian 4 (crc32 entry.2) ++ littleEndian 4 entry.2.length ++ littleEndian 4 entry.2.length ++
    littleEndian 2 (encode entry.1).length ++ littleEndian 2 0

def localEntry (entry : Text × Bytes) : Bytes :=
  littleEndian 4 0x04034b50 ++ sharedHeader entry ++ encode entry.1 ++ entry.2

/-- The central header of an entry whose local header stands at `offset`; mode 644. -/
def centralEntry (offset : ℕ) (entry : Text × Bytes) : Bytes :=
  littleEndian 4 0x02014b50 ++ littleEndian 2 0x031e ++ sharedHeader entry ++ littleEndian 2 0 ++
    littleEndian 2 0 ++ littleEndian 2 0 ++ littleEndian 4 (0o100644 * 2 ^ 16) ++ littleEndian 4 offset ++
    encode entry.1

def centralEntries (offset : ℕ) : List (Text × Bytes) → Bytes
  | [] => []
  | entry :: entries =>
    centralEntry offset entry ++ centralEntries (offset + (localEntry entry).length) entries

def stored (entries : List (Text × Bytes)) : Bytes :=
  let data := entries.flatMap localEntry
  let directory := centralEntries 0 entries
  data ++ directory ++ littleEndian 4 0x06054b50 ++ littleEndian 2 0 ++ littleEndian 2 0 ++
    littleEndian 2 entries.length ++ littleEndian 2 entries.length ++ littleEndian 4 directory.length ++
    littleEndian 4 data.length ++ littleEndian 2 0

end Zip
