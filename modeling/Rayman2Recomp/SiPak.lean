import Rayman2Recomp.ByteMemory
import Rayman2Recomp.PakStore

open ByteMemory Disk

namespace Rayman2Recomp

def kCmdRequestStatus : UInt8 := 0
def kCmdReadPak : UInt8 := 2
def kCmdWritePak : UInt8 := 3

def kContTypeNormal : UInt16 := 0x0005
def kContCardOn : UInt8 := 0x01

/-- Block 0x400 is the accessory identify and bank select register. -/
def kBlockDetect : Nat := 0x400

/-- RDRAM as the game addresses it, one byte at each sign-extended address. -/
abbrev Rdram := Mem

def memBU (rdram : Rdram) (offset base : Int) : UInt8 := loadByte rdram (base + offset)

def memB (rdram : Rdram) (offset base : Int) (value : UInt8) : Rdram :=
  storeByte rdram (base + offset) value

/-- The pak store and `g_detect_cell`. -/
structure SiState where
  store : PakStore
  detect : Fin 4 → Block

def crcStep (crc bit : UInt8) : UInt8 :=
  let xorTerm : UInt8 := if crc &&& 0x80 ≠ 0 then 0x85 else 0x00
  ((crc <<< 1) ||| bit) ^^^ xorTerm

/-- Thirty-three bytes go through the register, the last of which is nothing. -/
def dataCrc (data : Block) : UInt8 :=
  (List.range 33).foldl (fun crc i =>
    ([7, 6, 5, 4, 3, 2, 1, 0] : List UInt8).foldl (fun crc bit =>
      crcStep crc (if h : i < kBlockSize then (data ⟨i, h⟩ >>> bit) &&& 1 else 0)) crc) 0

/-- The address halfword of a frame, its low five bits a CRC of the rest. -/
def frameAddress (rdram : Rdram) (base : Int) : Nat :=
  ((memBU rdram 4 base).toNat <<< 8) ||| (memBU rdram 5 base).toNat

def handlePakBlock (w : SiState) (rdram : Rdram) (base : Int) (port : Fin 4) (cmd : UInt8)
    (o : LoadOutcome) : SiState × Rdram :=
  let block := frameAddress rdram base >>> 5
  let isWrite := cmd == kCmdWritePak
  let data : Block := if isWrite then fun i => memBU rdram (6 + i.val) base else fun _ => 0
  let (w, data) :=
    if block = kBlockDetect then
      if isWrite then ({ w with detect := Function.update w.detect port data }, data)
      else (w, w.detect port)
    else if block < kBlockDetect then
      if isWrite then ({ w with store := (writeBlock w.store port.val block data o).2 }, data)
      else
        match readBlock w.store port.val block o with
        | (some out, store) => ({ w with store := store }, out)
        | (none, store) => ({ w with store := store }, data)
    else (w, data)
  let rdram := if isWrite then rdram else storeBytes rdram (base + 6) data
  (w, memB rdram 0x26 base (dataCrc data))

def handleStatus (rdram : Rdram) (base : Int) (port : Fin 4) : Rdram :=
  let rdram := memB rdram 3 base kContTypeNormal.toUInt8
  let rdram := memB rdram 4 base (kContTypeNormal >>> 8).toUInt8
  memB rdram 5 base (if present port then kContCardOn else 0x00)

/-- The zero bytes that stand for the channels before the one addressed. -/
def fillerOk (rdram : Rdram) (pif : Int) (channel : Fin 4) : Bool :=
  (List.range channel.val).all fun i => memBU rdram 0 (pif + i) == 0x00

def isStatusQuery (rdram : Rdram) (base : Int) : Bool :=
  memBU rdram 0 base == 0x01 && memBU rdram 1 base == 0x03 &&
    memBU rdram 2 base == kCmdRequestStatus

def isPakBlock (rdram : Rdram) (base : Int) : Bool :=
  let tx := memBU rdram 1 base
  let rx := memBU rdram 2 base
  let cmd := memBU rdram 3 base
  memBU rdram 0 base == 0xFF &&
    ((cmd == kCmdReadPak && tx == 0x03 && rx == 0x21) ||
      (cmd == kCmdWritePak && tx == 0x23 && rx == 0x01))

/-- The loop over the channels; a filler byte that is not zero ends it. -/
def serviceChannels (w : SiState) (rdram : Rdram) (pif : Int) (o : LoadOutcome) :
    List (Fin 4) → Bool × SiState × Rdram
  | [] => (false, w, rdram)
  | channel :: rest =>
    let base := pif + channel.val
    if !fillerOk rdram pif channel then (false, w, rdram)
    else if isStatusQuery rdram base then (true, w, handleStatus rdram base channel)
    else if isPakBlock rdram base then
      (true, handlePakBlock w rdram base channel (memBU rdram 3 base) o)
    else serviceChannels w rdram pif o rest

def serviceFrame (w : SiState) (rdram : Rdram) (pif : Int) (o : LoadOutcome) :
    Bool × SiState × Rdram :=
  serviceChannels w rdram pif o (List.finRange 4)

/-- What `__osSiRawStartDma` leaves: `posted` counts the SI completions it sends. -/
structure DmaResult where
  state : SiState
  rdram : Rdram
  r2 : BitVec 64
  posted : Nat

def siAddress (r5 : BitVec 64) : Int := (r5.setWidth 32).toInt

/-- The start of the buffer lies in the 8 MiB of RDRAM. -/
def usableAddress (r5 : BitVec 64) : Bool :=
  (r5.setWidth 32 - 0x80000000#32).toNat < 0x00800000

def osSiRawStartDma (w : SiState) (rdram : Rdram) (r4 r5 : BitVec 64) (o : LoadOutcome) :
    DmaResult :=
  let direction := (r4.setWidth 32).toInt
  if direction = 0 ∧ usableAddress r5 then
    let served := serviceFrame w rdram (siAddress r5) o
    ⟨served.2.1, served.2.2, 0, 1⟩
  else ⟨w, rdram, 0, 1⟩

end Rayman2Recomp
