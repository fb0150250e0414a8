import Mathlib.Data.List.GetD
import OsdCore.Crc.Register
import OsdCore.Format.Bytes

/-!
# Checksums from tables: `crc.c`

* `calcCRC16`, `calcCRC32`, `calcCRC8` : a table entry for every byte; `none` is a read behind the data.
* `crc16Modbus`, `crc32Reflected`, `crc8Normal` : the same checks, a bit of the message at a time.
* `crc16_tables`, `crc32_table`, `crc8_table` : the entries are what an empty register makes of a byte.
* `calcCRC_eq_serial` : the functions compute the checks.
-/

namespace OsdCore

/-! ### The tables -/

/-- `CRCHiTable` : the lower bytes of the entries. -/
def crcHiTable : List UInt8 :=
  [0x00, 0xC1, 0x81, 0x40, 0x01, 0xC0, 0x80, 0x41, 0x01, 0xC0, 0x80, 0x41, 0x00, 0xC1, 0x81, 0x40,
    0x01, 0xC0, 0x80, 0x41, 0x00, 0xC1, 0x81, 0x40, 0x00, 0xC1, 0x81, 0x40, 0x01, 0xC0, 0x80, 0x41,
    0x01, 0xC0, 0x80, 0x41, 0x00, 0xC1, 0x81, 0x40, 0x00, 0xC1, 0x81, 0x40, 0x01, 0xC0, 0x80, 0x41,
    0x00, 0xC1, 0x81, 0x40, 0x01, 0xC0, 0x80, 0x41, 0x01, 0xC0, 0x80, 0x41, 0x00, 0xC1, 0x81, 0x40,
    0x01, 0xC0, 0x80, 0x41, 0x00, 0xC1, 0x81, 0x40, 0x00, 0xC1, 0x81, 0x40, 0x01, 0xC0, 0x80, 0x41,
    0x00, 0xC1, 0x81, 0x40, 0x01, 0xC0, 0x80, 0x41, 0x01, 0xC0, 0x80, 0x41, 0x00, 0xC1, 0x81, 0x40,
    0x00, 0xC1, 0x81, 0x40, 0x01, 0xC0, 0x80, 0x41, 0x01, 0xC0, 0x80, 0x41, 0x00, 0xC1, 0x81, 0x40,
    0x01, 0xC0, 0x80, 0x41, 0x00, 0xC1, 0x81, 0x40, 0x00, 0xC1, 0x81, 0x40, 0x01, 0xC0, 0x80, 0x41,
    0x01, 0xC0, 0x80, 0x41, 0x00, 0xC1, 0x81, 0x40, 0x00, 0xC1, 0x81, 0x40, 0x01, 0xC0, 0x80, 0x41,
    0x00, 0xC1, 0x81, 0x40, 0x01, 0xC0, 0x80, 0x41, 0x01, 0xC0, 0x80, 0x41, 0x00, 0xC1, 0x81, 0x40,
    0x00, 0xC1, 0x81, 0x40, 0x01, 0xC0, 0x80, 0x41, 0x01, 0xC0, 0x80, 0x41, 0x00, 0xC1, 0x81, 0x40,
    0x01, 0xC0, 0x80, 0x41, 0x00, 0xC1, 0x81, 0x40, 0x00, 0xC1, 0x81, 0x40, 0x01, 0xC0, 0x80, 0x41,
    0x00, 0xC1, 0x81, 0x40, 0x01, 0xC0, 0x80, 0x41, 0x01, 0xC0, 0x80, 0x41, 0x00, 0xC1, 0x81, 0x40,
    0x01, 0xC0, 0x80, 0x41, 0x00, 0xC1, 0x81, 0x40, 0x00, 0xC1, 0x81, 0x40, 0x01, 0xC0, 0x80, 0x41,
    0x01, 0xC0, 0x80, 0x41, 0x00, 0xC1, 0x81, 0x40, 0x00, 0xC1, 0x81, 0x40, 0x01, 0xC0, 0x80, 0x41,
    0x00, 0xC1, 0x81, 0x40, 0x01, 0xC0, 0x80, 0x41, 0x01, 0xC0, 0x80, 0x41, 0x00, 0xC1, 0x81, 0x40]

/-- `CRCLoTable` : the upper bytes. -/
def crcLoTable : List UInt8 :=
  [0x00, 0xC0, 0xC1, 0x01, 0xC3, 0x03, 0x02, 0xC2, 0xC6, 0x06, 0x07, 0xC7, 0x05, 0xC5, 0xC4, 0x04,
    0xCC, 0x0C, 0x0D, 0xCD, 0x0F, 0xCF, 0xCE, 0x0E, 0x0A, 0xCA, 0xCB, 0x0B, 0xC9, 0x09, 0x08, 0xC8,
    0xD8, 0x18, 0x19, 0xD9, 0x1B, 0xDB, 0xDA, 0x1A, 0x1E, 0xDE, 0xDF, 0x1F, 0xDD, 0x1D, 0x1C, 0xDC,
    0x14, 0xD4, 0xD5, 0x15, 0xD7, 0x17, 0x16, 0xD6, 0xD2, 0x12, 0x13, 0xD3, 0x11, 0xD1, 0xD0, 0x10,
    0xF0, 0x30, 0x31, 0xF1, 0x33, 0xF3, 0xF2, 0x32, 0x36, 0xF6, 0xF7, 0x37, 0xF5, 0x35, 0x34, 0xF4,
    0x3C, 0xFC, 0xFD, 0x3D, 0xFF, 0x3F, 0x3E, 0xFE, 0xFA, 0x3A, 0x3B, 0xFB, 0x39, 0xF9, 0xF8, 0x38,
    0x28, 0xE8, 0xE9, 0x29, 0xEB, 0x2B, 0x2A, 0xEA, 0xEE, 0x2E, 0x2F, 0xEF, 0x2D, 0xED, 0xEC, 0x2C,
    0xE4, 0x24, 0x25, 0xE5, 0x27, 0xE7, 0xE6, 0x26, 0x22, 0xE2, 0xE3, 0x23, 0xE1, 0x21, 0x20, 0xE0,
    0xA0, 0x60, 0x61, 0xA1, 0x63, 0xA3, 0xA2, 0x62, 0x66, 0xA6, 0xA7, 0x67, 0xA5, 0x65, 0x64, 0xA4,
    0x6C, 0xAC, 0xAD, 0x6D, 0xAF, 0x6F, 0x6E, 0xAE, 0xAA, 0x6A, 0x6B, 0xAB, 0x69, 0xA9, 0xA8, 0x68,
    0x78, 0xB8, 0xB9, 0x79, 0xBB, 0x7B, 0x7A, 0xBA, 0xBE, 0x7E, 0x7F, 0xBF, 0x7D, 0xBD, 0xBC, 0x7C,
    0xB4, 0x74, 0x75, 0xB5, 0x77, 0xB7, 0xB6, 0x76, 0x72, 0xB2, 0xB3, 0x73, 0xB1, 0x71, 0x70, 0xB0,
    0x50, 0x90, 0x91, 0x51, 0x93, 0x53, 0x52, 0x92, 0x96, 0x56, 0x57, 0x97, 0x55, 0x95, 0x94, 0x54,
    0x9C, 0x5C, 0x5D, 0x9D, 0x5F, 0x9F, 0x9E, 0x5E, 0x5A, 0x9A, 0x9B, 0x5B, 0x99, 0x59, 0x58, 0x98,
    0x88, 0x48, 0x49, 0x89, 0x4B, 0x8B, 0x8A, 0x4A, 0x4E, 0x8E, 0x8F, 0x4F, 0x8D, 0x4D, 0x4C, 0x8C,
    0x44, 0x84, 0x85, 0x45, 0x87, 0x47, 0x46, 0x86, 0x82, 0x42, 0x43, 0x83, 0x41, 0x81, 0x80, 0x40]

/-- `CRC32_table`. -/
def crc32Table : List UInt32 :=
  [0x00000000, 0x77073096, 0xEE0E612C, 0x990951BA, 0x076DC419, 0x706AF48F, 0xE963A535, 0x9E6495A3,
    0x0EDB8832, 0x79DCB8A4, 0xE0D5E91E, 0x97D2D988, 0x09B64C2B, 0x7EB17CBD, 0xE7B82D07, 0x90BF1D91,
    0x1DB71064, 0x6AB020F2, 0xF3B97148, 0x84BE41DE, 0x1ADAD47D, 0x6DDDE4EB, 0xF4D4B551, 0x83D385C7,
    0x136C9856, 0x646BA8C0, 0xFD62F97A, 0x8A65C9EC, 0x14015C4F, 0x63066CD9, 0xFA0F3D63, 0x8D080DF5,
    0x3B6E20C8, 0x4C69105E, 0xD56041E4, 0xA2677172, 0x3C03E4D1, 0x4B04D447, 0xD20D85FD, 0xA50AB56B,
    0x35B5A8FA, 0x42B2986C, 0xDBBBC9D6, 0xACBCF940, 0x32D86CE3, 0x45DF5C75, 0xDCD60DCF, 0xABD13D59,
    0x26D930AC, 0x51DE003A, 0xC8D75180, 0xBFD06116, 0x21B4F4B5, 0x56B3C423, 0xCFBA9599, 0xB8BDA50F,
    0x2802B89E, 0x5F058808, 0xC60CD9B2, 0xB10BE924, 0x2F6F7C87, 0x58684C11, 0xC1611DAB, 0xB6662D3D,
    0x76DC4190, 0x01DB7106, 0x98D220BC, 0xEFD5102A, 0x71B18589, 0x06B6B51F, 0x9FBFE4A5, 0xE8B8D433,
    0x7807C9A2, 0x0F00F934, 0x9609A88E, 0xE10E9818, 0x7F6A0DBB, 0x086D3D2D, 0x91646C97, 0xE6635C01,
    0x6B6B51F4, 0x1C6C6162, 0x856530D8, 0xF262004E, 0x6C0695ED, 0x1B01A57B, 0x8208F4C1, 0xF50FC457,
    0x65B0D9C6, 0x12B7E950, 0x8BBEB8EA, 0xFCB9887C, 0x62DD1DDF, 0x15DA2D49, 0x8CD37CF3, 0xFBD44C65,
    0x4DB26158, 0x3AB551CE, 0xA3BC0074, 0xD4BB30E2, 0x4ADFA541, 0x3DD895D7, 0xA4D1C46D, 0xD3D6F4FB,
    0x4369E96A, 0x346ED9FC, 0xAD678846, 0xDA60B8D0, 0x44042D73, 0x33031DE5, 0xAA0A4C5F, 0xDD0D7CC9,
    0x5005713C, 0x270241AA, 0xBE0B1010, 0xC90C2086, 0x5768B525, 0x206F85B3, 0xB966D409, 0xCE61E49F,
    0x5EDEF90E, 0x29D9C998, 0xB0D09822, 0xC7D7A8B4, 0x59B33D17, 0x2EB40D81, 0xB7BD5C3B, 0xC0BA6CAD,
    0xEDB88320, 0x9ABFB3B6, 0x03B6E20C, 0x74B1D29A, 0xEAD54739, 0x9DD277AF, 0x04DB2615, 0x73DC1683,
    0xE3630B12, 0x94643B84, 0x0D6D6A3E, 0x7A6A5AA8, 0xE40ECF0B, 0x9309FF9D, 0x0A00AE27, 0x7D079EB1,
    0xF00F9344, 0x8708A3D2, 0x1E01F268, 0x6906C2FE, 0xF762575D, 0x806567CB, 0x196C3671, 0x6E6B06E7,
    0xFED41B76, 0x89D32BE0, 0x10DA7A5A, 0x67DD4ACC, 0xF9B9DF6F, 0x8EBEEFF9, 0x17B7BE43, 0x60B08ED5,
    0xD6D6A3E8, 0xA1D1937E, 0x38D8C2C4, 0x4FDFF252, 0xD1BB67F1, 0xA6BC5767, 0x3FB506DD, 0x48B2364B,
    0xD80D2BDA, 0xAF0A1B4C, 0x36034AF6, 0x41047A60, 0xDF60EFC3, 0xA867DF55, 0x316E8EEF, 0x4669BE79,
    0xCB61B38C, 0xBC66831A, 0x256FD2A0, 0x5268E236, 0xCC0C7795, 0xBB0B4703, 0x220216B9, 0x5505262F,
    0xC5BA3BBE, 0xB2BD0B28, 0x2BB45A92, 0x5CB36A04, 0xC2D7FFA7, 0xB5D0CF31, 0x2CD99E8B, 0x5BDEAE1D,
    0x9B64C2B0, 0xEC63F226, 0x756AA39C, 0x026D930A, 0x9C0906A9, 0xEB0E363F, 0x72076785, 0x05005713,
    0x95BF4A82, 0xE2B87A14, 0x7BB12BAE, 0x0CB61B38, 0x92D28E9B, 0xE5D5BE0D, 0x7CDCEFB7, 0x0BDBDF21,
    0x86D3D2D4, 0xF1D4E242, 0x68DDB3F8, 0x1FDA836E, 0x81BE16CD, 0xF6B9265B, 0x6FB077E1, 0x18B74777,
    0x88085AE6, 0xFF0F6A70, 0x66063BCA, 0x11010B5C, 0x8F659EFF, 0xF862AE69, 0x616BFFD3, 0x166CCF45,
    0xA00AE278, 0xD70DD2EE, 0x4E048354, 0x3903B3C2, 0xA7672661, 0xD06016F7, 0x4969474D, 0x3E6E77DB,
    0xAED16A4A, 0xD9D65ADC, 0x40DF0B66, 0x37D83BF0, 0xA9BCAE53, 0xDEBB9EC5, 0x47B2CF7F, 0x30B5FFE9,
    0xBDBDF21C, 0xCABAC28A, 0x53B39330, 0x24B4A3A6, 0xBAD03605, 0xCDD70693, 0x54DE5729, 0x23D967BF,
    0xB3667A2E, 0xC4614AB8, 0x5D681B02, 0x2A6F2B94, 0xB40BBE37, 0xC30C8EA1, 0x5A05DF1B, 0x2D02EF8D]

/-- `crc8_table`. -/
def crc8Table : List UInt8 :=
  [0x00, 0x07, 0x0E, 0x09, 0x1C, 0x1B, 0x12, 0x15, 0x38, 0x3F, 0x36, 0x31, 0x24, 0x23, 0x2A, 0x2D,
    0x70, 0x77, 0x7E, 0x79, 0x6C, 0x6B, 0x62, 0x65, 0x48, 0x4F, 0x46, 0x41, 0x54, 0x53, 0x5A, 0x5D,
    0xE0, 0xE7, 0xEE, 0xE9, 0xFC, 0xFB, 0xF2, 0xF5, 0xD8, 0xDF, 0xD6, 0xD1, 0xC4, 0xC3, 0xCA, 0xCD,
    0x90, 0x97, 0x9E, 0x99, 0x8C, 0x8B, 0x82, 0x85, 0xA8, 0xAF, 0xA6, 0xA1, 0xB4, 0xB3, 0xBA, 0xBD,
    0xC7, 0xC0, 0xC9, 0xCE, 0xDB, 0xDC, 0xD5, 0xD2, 0xFF, 0xF8, 0xF1, 0xF6, 0xE3, 0xE4, 0xED, 0xEA,
    0xB7, 0xB0, 0xB9, 0xBE, 0xAB, 0xAC, 0xA5, 0xA2, 0x8F, 0x88, 0x81, 0x86, 0x93, 0x94, 0x9D, 0x9A,
    0x27, 0x20, 0x29, 0x2E, 0x3B, 0x3C, 0x35, 0x32, 0x1F, 0x18, 0x11, 0x16, 0x03, 0x04, 0x0D, 0x0A,
    0x57, 0x50, 0x59, 0x5E, 0x4B, 0x4C, 0x45, 0x42, 0x6F, 0x68, 0x61, 0x66, 0x73, 0x74, 0x7D, 0x7A,
    0x89, 0x8E, 0x87, 0x80, 0x95, 0x92, 0x9B, 0x9C, 0xB1, 0xB6, 0xBF, 0xB8, 0xAD, 0xAA, 0xA3, 0xA4,
    0xF9, 0xFE, 0xF7, 0xF0, 0xE5, 0xE2, 0xEB, 0xEC, 0xC1, 0xC6, 0xCF, 0xC8, 0xDD, 0xDA, 0xD3, 0xD4,
    0x69, 0x6E, 0x67, 0x60, 0x75, 0x72, 0x7B, 0x7C, 0x51, 0x56, 0x5F, 0x58, 0x4D, 0x4A, 0x43, 0x44,
    0x19, 0x1E, 0x17, 0x10, 0x05, 0x02, 0x0B, 0x0C, 0x21, 0x26, 0x2F, 0x28, 0x3D, 0x3A, 0x33, 0x34,
    0x4E, 0x49, 0x40, 0x47, 0x52, 0x55, 0x5C, 0x5B, 0x76, 0x71, 0x78, 0x7F, 0x6A, 0x6D, 0x64, 0x63,
    0x3E, 0x39, 0x30, 0x37, 0x22, 0x25, 0x2C, 0x2B, 0x06, 0x01, 0x08, 0x0F, 0x1A, 0x1D, 0x14, 0x13,
    0xAE, 0xA9, 0xA0, 0xA7, 0xB2, 0xB5, 0xBC, 0xBB, 0x96, 0x91, 0x98, 0x9F, 0x8A, 0x8D, 0x84, 0x83,
    0xDE, 0xD9, 0xD0, 0xD7, 0xC2, 0xC5, 0xCC, 0xCB, 0xE6, 0xE1, 0xE8, 0xEF, 0xFA, 0xFD, 0xF4, 0xF3]

/-! ### The functions -/

/-- The loop of `calcCRC16`, with `length` passes left.  The register is in two bytes. -/
def crc16Loop : ℕ → Bytes → UInt8 → UInt8 → Option UInt16
  | 0, _, crcHi, crcLo => some (crcHi.toUInt16 <<< 8 ||| crcLo.toUInt16)
  | _ + 1, [], _, _ => none
  | length + 1, b :: data, crcHi, crcLo =>
    let index := crcLo ^^^ b
    crc16Loop length data (crcLoTable.getD index.toNat 0) (crcHi ^^^ crcHiTable.getD index.toNat 0)

/-- `calcCRC16`. -/
def calcCRC16 (data : Bytes) (length : UInt32) : Option UInt16 := crc16Loop length.toNat data 0xFF 0xFF

/-- The loop of `calcCRC32`. -/
def crc32Loop : ℕ → Bytes → UInt32 → Option UInt32
  | 0, _, crc => some (~~~crc)
  | _ + 1, [], _ => none
  | len + 1, b :: buf, crc =>
    let t := (crc ^^^ b.toUInt32) &&& 0xFF
    crc32Loop len buf ((crc >>> 8 &&& 0xFFFFFF) ^^^ crc32Table.getD t.toNat 0)

/-- `calcCRC32`. -/
def calcCRC32 (buf : Bytes) (len : UInt32) : Option UInt32 := crc32Loop len.toNat buf 0xFFFFFFFF

/-- The loop of `calcCRC8`. -/
def crc8Loop : ℕ → Bytes → UInt8 → Option UInt8
  | 0, _, crc => some crc
  | _ + 1, [], _ => none
  | len + 1, b :: ptr, crc => crc8Loop len ptr (crc8Table.getD (crc ^^^ b).toNat 0)

/-- `calcCRC8`. -/
def calcCRC8 (ptr : Bytes) (len : UInt32) : Option UInt8 := crc8Loop len.toNat ptr 0x00

/-! ### The checks, bit by bit -/

/-- The reflected check with the polynomial 0xA001, from 0xFFFF on. -/
def crc16Modbus (data : Bytes) : UInt16 :=
  ⟨(reflected 0xA001#16).run 0xFFFF#16 (data.flatMap fun b => bitsLsb b.toBitVec)⟩

/-- The reflected check with the polynomial 0xEDB88320, from 0xFFFFFFFF on, and the complement of it. -/
def crc32Reflected (data : Bytes) : UInt32 :=
  ⟨~~~(reflected 0xEDB88320#32).run 0xFFFFFFFF#32 (data.flatMap fun b => bitsLsb b.toBitVec)⟩

/-- The check with the polynomial 0x07, from 0 on. -/
def crc8Normal (data : Bytes) : UInt8 :=
  ⟨(normal 0x07#8).run 0#8 (data.flatMap fun b => bitsMsb b.toBitVec)⟩

/-! ### What the tables are -/

/-- The entries are what an empty register makes of a byte. -/
theorem crc16_tables : ((crcLoTable.zip crcHiTable).map fun e => e.1.toBitVec ++ e.2.toBitVec) =
    (List.range 256).map fun i => (reflected 0xA001#16).run 0#16 (bitsLsb (BitVec.ofNat 8 i)) := by
  decide +kernel

theorem crc32_table : crc32Table.map UInt32.toBitVec =
    (List.range 256).map fun i => (reflected 0xEDB88320#32).run 0#32 (bitsLsb (BitVec.ofNat 8 i)) := by
  decide +kernel

theorem crc8_table : crc8Table.map UInt8.toBitVec =
    (List.range 256).map fun i => (normal 0x07#8).run 0#8 (bitsMsb (BitVec.ofNat 8 i)) := by
  decide +kernel

/-- An entry of a table that is known as a whole. -/
theorem getD_of_map_eq {α β : Type} {table : List α} {f : α → β} {g : ℕ → β} {n i : ℕ}
    (h : table.map f = (List.range n).map g) (hi : i < n) (d : α) : f (table.getD i d) = g i := by
  have hlen : table.length = n := by
    simpa using congrArg List.length h
  have hget := congrArg (fun l => l[i]?) h
  rw [List.getElem?_map, List.getElem?_map, List.getElem?_range hi,
    List.getElem?_eq_getElem (hlen.symm ▸ hi)] at hget
  rw [List.getD_eq_getElem _ _ (hlen.symm ▸ hi)]
  exact Option.some.inj hget

theorem length_crcTables : crcLoTable.length = 256 ∧ crcHiTable.length = 256 := by decide +kernel

/-- An entry of the two tables of bytes. -/
theorem crc16_entry (i : UInt8) :
    (crcLoTable.getD i.toNat 0).toBitVec ++ (crcHiTable.getD i.toNat 0).toBitVec =
      (reflected 0xA001#16).run 0#16 (bitsLsb i.toBitVec) := by
  have hentry := getD_of_map_eq crc16_tables i.toNat_lt (0, 0)
  have hzip : (crcLoTable.zip crcHiTable).getD i.toNat (0, 0) =
      (crcLoTable.getD i.toNat 0, crcHiTable.getD i.toNat 0) := by
    have hlo : i.toNat < crcLoTable.length := length_crcTables.1 ▸ i.toNat_lt
    have hhi : i.toNat < crcHiTable.length := length_crcTables.2 ▸ i.toNat_lt
    rw [List.getD_eq_getElem _ _ hlo, List.getD_eq_getElem _ _ hhi,
      List.getD_eq_getElem _ _ (by rw [List.length_zip]; omega), List.getElem_zip]
  rw [hzip, ← UInt8.toNat_toBitVec, BitVec.ofNat_toNat, BitVec.setWidth_eq] at hentry
  exact hentry

/-! ### A byte goes in -/

/-- The two bytes of the register after a byte. -/
theorem crc16_byte (crcHi crcLo b : UInt8) :
    (crcLoTable.getD (crcLo ^^^ b).toNat 0).toBitVec ++
        (crcHi ^^^ crcHiTable.getD (crcLo ^^^ b).toNat 0).toBitVec =
      (reflected 0xA001#16).run (crcHi.toBitVec ++ crcLo.toBitVec) (bitsLsb b.toBitVec) := by
  have hlow : (crcHi.toBitVec ++ crcLo.toBitVec).setWidth 8 = crcLo.toBitVec :=
    BitVec.setWidth_append_eq_right
  have hhigh : (crcHi.toBitVec ++ crcLo.toBitVec) >>> 8 = 0#8 ++ crcHi.toBitVec := by
    ext i hi
    rw [BitVec.getElem_ushiftRight, BitVec.getLsbD_append, BitVec.getElem_append]
    by_cases h : i < 8
    · simp [h]
    · simp [h, BitVec.getLsbD_of_ge crcHi.toBitVec i (by omega)]
  rw [run_reflected, hlow, hhigh, ← UInt8.toBitVec_xor, ← crc16_entry, BitVec.xor_append,
    BitVec.zero_xor, UInt8.toBitVec_xor]

theorem crc32_byte (crc : UInt32) (b : UInt8) :
    ((crc >>> 8 &&& 0xFFFFFF) ^^^ crc32Table.getD ((crc ^^^ b.toUInt32) &&& 0xFF).toNat 0).toBitVec =
      (reflected 0xEDB88320#32).run crc.toBitVec (bitsLsb b.toBitVec) := by
  have hindex : ((crc ^^^ b.toUInt32) &&& 0xFF).toNat = (crc.toBitVec.setWidth 8 ^^^ b.toBitVec).toNat := by
    have hb : b.toNat % 2 ^ 8 = b.toNat := Nat.mod_eq_of_lt b.toNat_lt
    rw [UInt32.toNat_and, UInt32.toNat_xor, UInt8.toNat_toUInt32, BitVec.toNat_xor, BitVec.toNat_setWidth,
      show (0xFF : UInt32).toNat = 2 ^ 8 - 1 from rfl, Nat.and_two_pow_sub_one_eq_mod, Nat.xor_mod_two_pow, hb]
    rfl
  have hhigh : (crc >>> 8 &&& 0xFFFFFF).toBitVec = crc.toBitVec >>> 8 := by
    have hcrc := crc.toNat_lt
    apply BitVec.eq_of_toNat_eq
    rw [UInt32.toNat_toBitVec, UInt32.toNat_and, show (0xFFFFFF : UInt32).toNat = 2 ^ 24 - 1 from rfl,
      Nat.and_two_pow_sub_one_eq_mod, UInt32.toNat_shiftRight, BitVec.toNat_ushiftRight,
      UInt32.toNat_toBitVec, show (8 : UInt32).toNat % 32 = 8 from rfl, Nat.shiftRight_eq_div_pow]
    omega
  have hentry := getD_of_map_eq crc32_table (crc.toBitVec.setWidth 8 ^^^ b.toBitVec).isLt 0
  rw [BitVec.ofNat_toNat, BitVec.setWidth_eq] at hentry
  rw [UInt32.toBitVec_xor, hhigh, hindex, hentry, run_reflected _ crc.toBitVec]

theorem crc8_byte (crc b : UInt8) : (crc8Table.getD (crc ^^^ b).toNat 0).toBitVec =
    (normal 0x07#8).run crc.toBitVec (bitsMsb b.toBitVec) := by
  have hentry := getD_of_map_eq crc8_table (crc ^^^ b).toNat_lt 0
  rw [← UInt8.toNat_toBitVec, BitVec.ofNat_toNat, BitVec.setWidth_eq] at hentry
  rw [run_normal, ← UInt8.toBitVec_xor]
  exact hentry

/-! ### The whole message -/

section

variable {data : Bytes} {n : ℕ}

/-- The two bytes of the register, as one number. -/
theorem toUInt16_append (crcHi crcLo : UInt8) :
    crcHi.toUInt16 <<< 8 ||| crcLo.toUInt16 = ⟨crcHi.toBitVec ++ crcLo.toBitVec⟩ := by
  have hhi : crcHi.toNat <<< 8 < 2 ^ 16 := by
    have := crcHi.toNat_lt
    rw [Nat.shiftLeft_eq]
    omega
  apply UInt16.toNat_inj.1
  rw [UInt16.toNat_or, UInt16.toNat_shiftLeft, UInt8.toNat_toUInt16, UInt8.toNat_toUInt16,
    show (8 : UInt16).toNat % 16 = 8 from rfl, Nat.mod_eq_of_lt hhi]
  exact (BitVec.toNat_append ..).symm

theorem crc16Loop_eq (h : n ≤ data.length) (crcHi crcLo : UInt8) :
    crc16Loop n data crcHi crcLo =
      some ⟨(reflected 0xA001#16).run (crcHi.toBitVec ++ crcLo.toBitVec)
        ((data.take n).flatMap fun b => bitsLsb b.toBitVec)⟩ := by
  induction n generalizing data crcHi crcLo with
  | zero => exact congrArg some (toUInt16_append crcHi crcLo)
  | succ n ih =>
    cases data with
    | nil => cases h
    | cons b data =>
      rw [crc16Loop, ih (Nat.le_of_succ_le_succ h), crc16_byte, List.take_succ_cons, List.flatMap_cons,
        FeedbackRegister.run_append]

theorem crc32Loop_eq (h : n ≤ data.length) (crc : UInt32) :
    crc32Loop n data crc =
      some ⟨~~~(reflected 0xEDB88320#32).run crc.toBitVec
        ((data.take n).flatMap fun b => bitsLsb b.toBitVec)⟩ := by
  induction n generalizing data crc with
  | zero => rfl
  | succ n ih =>
    cases data with
    | nil => cases h
    | cons b data =>
      rw [crc32Loop, ih (Nat.le_of_succ_le_succ h), crc32_byte, List.take_succ_cons, List.flatMap_cons,
        FeedbackRegister.run_append]

theorem crc8Loop_eq (h : n ≤ data.length) (crc : UInt8) :
    crc8Loop n data crc =
      some ⟨(normal 0x07#8).run crc.toBitVec ((data.take n).flatMap fun b => bitsMsb b.toBitVec)⟩ := by
  induction n generalizing data crc with
  | zero => rfl
  | succ n ih =>
    cases data with
    | nil => cases h
    | cons b data =>
      rw [crc8Loop, ih (Nat.le_of_succ_le_succ h), crc8_byte, List.take_succ_cons, List.flatMap_cons,
        FeedbackRegister.run_append]

end

/-- **The functions compute the checks** of the first `length` bytes, where there are so many. -/
theorem calcCRC_eq_serial (data : Bytes) (length : UInt32) (h : length.toNat ≤ data.length) :
    calcCRC16 data length = some (crc16Modbus (data.take length.toNat)) ∧
      calcCRC32 data length = some (crc32Reflected (data.take length.toNat)) ∧
      calcCRC8 data length = some (crc8Normal (data.take length.toNat)) :=
  ⟨crc16Loop_eq h 0xFF 0xFF, crc32Loop_eq h 0xFFFFFFFF, crc8Loop_eq h 0x00⟩

/-- The check values of the nine digits. -/
theorem calcCRC_digits :
    calcCRC16 (ascii "123456789") 9 = some (crc16Modbus (ascii "123456789")) ∧
      crc16Modbus (ascii "123456789") = 0x4B37 ∧ crc32Reflected (ascii "123456789") = 0xCBF43926 ∧
      crc8Normal (ascii "123456789") = 0xF4 :=
  ⟨(calcCRC_eq_serial (ascii "123456789") 9 (by decide)).1, by decide +kernel, by decide +kernel,
    by decide +kernel⟩

end OsdCore
