import Rayman2Recomp.SiReplies

open BlockArray ByteMemory Disk

namespace Rayman2Recomp

/-- The first and last frame offsets a reply may change. -/
def Shape.replyFirst : Shape → Nat
  | .status => 3
  | .read => 6
  | .write => 0x26

def Shape.replyLast : Shape → Nat
  | .status => 5
  | .read | .write => 0x26

theorem handleStatus_outside {rdram : Rdram} {base x : Int} {c : Fin 4}
    (h : x < base + 3 ∨ base + 5 < x) : handleStatus rdram base c x = rdram x := by
  simp only [handleStatus, memB]
  rw [storeByte_other (by omega), storeByte_other (by omega), storeByte_other (by omega)]

theorem readReply_outside {rdram : Rdram} {base x : Int} {data : Block}
    (h : x < base + 6 ∨ base + 0x26 < x) : readReply rdram base data x = rdram x := by
  rw [readReply, memB, storeByte_other (by omega), storeBytes_outside]
  simp only [kBlockSize]
  omega

theorem serve_outside (w : SiState) {rdram : Rdram} {pif x : Int} {c : Fin 4} (o : LoadOutcome)
    {shape : Shape} (h : x < pif + c.val + shape.replyFirst ∨ pif + c.val + shape.replyLast < x) :
    (serve w rdram pif c o shape).2 x = rdram x := by
  cases shape with
  | status => exact handleStatus_outside h
  | read => rw [serve_read]; exact readReply_outside h
  | write =>
    rw [serve_write]
    simp only [Shape.replyFirst, Shape.replyLast] at h
    exact storeByte_other (by omega)

theorem frameAt_serve (w : SiState) {rdram : Rdram} {pif : Int} {c : Fin 4} (o : LoadOutcome)
    {shape : Shape} (h : FrameAt rdram pif c shape) :
    FrameAt (serve w rdram pif c o shape).2 pif c shape := by
  have first : ∀ k byte, shape.header[k]? = some byte → k < shape.replyFirst := by
    intro k byte hk
    obtain ⟨bound, _⟩ := List.getElem?_eq_some_iff.mp hk
    cases shape <;> simp only [Shape.header, List.length_cons, List.length_nil] at bound <;>
      simp only [Shape.replyFirst] <;> omega
  constructor
  · intro i hi
    rw [serve_outside w o (Or.inl (by omega))]
    exact h.1 i hi
  · intro k byte hk
    have := first k byte hk
    rw [serve_outside w o (Or.inl (by omega))]
    exact h.2 k byte hk

theorem handleStatus_again (rdram : Rdram) (base : Int) (c : Fin 4) :
    handleStatus (handleStatus rdram base c) base c = handleStatus rdram base c := by
  have at3 : handleStatus rdram base c (base + 3) = kContTypeNormal.toUInt8 := by
    simp only [handleStatus, memB]
    rw [storeByte_other (by omega), storeByte_other (by omega), storeByte_same]
  have at4 : handleStatus rdram base c (base + 4) = (kContTypeNormal >>> 8).toUInt8 := by
    simp only [handleStatus, memB]
    rw [storeByte_other (by omega), storeByte_same]
  have at5 : handleStatus rdram base c (base + 5) = if present c then kContCardOn else 0x00 := by
    simp only [handleStatus, memB, storeByte_same]
  generalize handleStatus rdram base c = m at at3 at4 at5 ⊢
  simp only [handleStatus, memB]
  rw [storeByte_eq_self at3, storeByte_eq_self at4, storeByte_eq_self at5]

theorem readReply_data (rdram : Rdram) (base : Int) (data : Block) (i : Fin kBlockSize) :
    readReply rdram base data (base + 6 + i.val) = data i := by
  have bound : i.val < 32 := i.isLt
  rw [readReply, memB, storeByte_other (by omega), storeBytes_inside]

theorem readReply_crc (rdram : Rdram) (base : Int) (data : Block) :
    readReply rdram base data (base + 0x26) = dataCrc data := by
  rw [readReply, memB, storeByte_same]

theorem readReply_again (rdram : Rdram) (base : Int) (data : Block) :
    readReply (readReply rdram base data) base data = readReply rdram base data := by
  have crc := readReply_crc rdram base data
  have bytes := readReply_data rdram base data
  generalize readReply rdram base data = m at crc bytes ⊢
  rw [readReply, memB, storeBytes_eq_self bytes, storeByte_eq_self crc]

theorem frameBlock_congr {m n : Rdram} {base : Int}
    (h : ∀ x, x < base + 6 → m x = n x) : frameBlock m base = frameBlock n base := by
  simp only [frameBlock, frameAddress, memBU, loadByte, h (base + 4) (by omega),
    h (base + 5) (by omega)]

theorem frameData_congr {m n : Rdram} {base : Int}
    (h : ∀ x, x < base + 0x26 → m x = n x) : frameData m base = frameData n base := by
  funext i
  have bound : i.val < 32 := i.isLt
  exact h (base + (6 + i.val)) (by omega)

theorem writePak_again (w : SiState) (c : Fin 4) (block : Nat) (data : Block) (o o' : LoadOutcome) :
    writePak (writePak w c block data o) c block data o' = writePak w c block data o := by
  unfold writePak
  split
  next => simp
  next =>
    split
    next below => simp only [writeBlock_again (blockAddress_fin c below)]
    next => rfl

theorem readPakBlock_again (w : SiState) (c : Fin 4) (block : Nat) (o o' : LoadOutcome) :
    readPakBlock (readPakBlock w c block o).2 c block o' = readPakBlock w c block o := by
  unfold readPakBlock
  split
  next => rfl
  next =>
    split
    next below => simp only [readBlock_again (blockAddress_fin c below)]
    next => rfl

theorem serve_again (w : SiState) (rdram : Rdram) (pif : Int) (c : Fin 4) (o o' : LoadOutcome)
    (shape : Shape) :
    serve (serve w rdram pif c o shape).1 (serve w rdram pif c o shape).2 pif c o' shape =
      serve w rdram pif c o shape := by
  cases shape with
  | status => exact Prod.ext rfl (handleStatus_again rdram (pif + c.val) c)
  | read =>
    have block : ∀ data, frameBlock (readReply rdram (pif + c.val) data) (pif + c.val) =
        frameBlock rdram (pif + c.val) := fun data =>
      frameBlock_congr fun x hx => readReply_outside (Or.inl hx)
    simp only [serve_read, block, readPakBlock_again, readReply_again]
  | write =>
    let base := pif + c.val
    let m := memB rdram 0x26 base (dataCrc (frameData rdram base))
    have below : ∀ x, x < base + 0x26 → m x = rdram x := fun x hx =>
      storeByte_other (by omega)
    have block : frameBlock m base = frameBlock rdram base :=
      frameBlock_congr fun x hx => below x (by omega)
    have data : frameData m base = frameData rdram base := frameData_congr below
    have crc : memB m 0x26 base (dataCrc (frameData rdram base)) = m :=
      storeByte_eq_self (storeByte_same _ _ _)
    rw [serve_write, serve_write]
    change (writePak _ c (frameBlock m base) (frameData m base) o',
      memB m 0x26 base (dataCrc (frameData m base))) = _
    rw [block, data, crc, writePak_again]

/-- What `service_frame` accepts, which frame it serves, what it changes, and
that serving the same buffer again changes nothing more. -/
theorem serviceFrame_exact (w : SiState) (rdram : Rdram) (pif : Int) (o : LoadOutcome) :
    ((serviceFrame w rdram pif o).1 = true ↔ ∃ c shape, FrameAt rdram pif c shape) ∧
    (∀ c d s t, FrameAt rdram pif c s → FrameAt rdram pif d t → c = d ∧ s = t) ∧
    (∀ c shape, FrameAt rdram pif c shape →
      serviceFrame w rdram pif o = (true, serve w rdram pif c o shape) ∧
      (∀ x, (serve w rdram pif c o shape).2 x ≠ rdram x →
        pif + c.val + shape.replyFirst ≤ x ∧ x ≤ pif + c.val + shape.replyLast) ∧
      FrameAt (serve w rdram pif c o shape).2 pif c shape ∧
      ∀ o', serviceFrame (serve w rdram pif c o shape).1 (serve w rdram pif c o shape).2 pif o' =
        (true, serve w rdram pif c o shape)) ∧
    ((serviceFrame w rdram pif o).1 = false → serviceFrame w rdram pif o = (false, w, rdram)) := by
  have unmatched : (¬∃ c shape, FrameAt rdram pif c shape) →
      serviceFrame w rdram pif o = (false, w, rdram) := fun none =>
    serviceFrame_unmatched fun c shape h => none ⟨c, shape, h⟩
  refine ⟨⟨?_, ?_⟩, fun c d s t => frameAt_unique, ?_, ?_⟩
  · intro served
    by_contra none
    rw [unmatched none] at served
    exact Bool.false_ne_true served
  · rintro ⟨c, shape, h⟩
    rw [serviceFrame_matched h]
  · intro c shape h
    refine ⟨serviceFrame_matched h, ?_, frameAt_serve w o h, fun o' => ?_⟩
    · intro x changed
      by_contra outside
      exact changed (serve_outside w o (by omega))
    · rw [serviceFrame_matched (frameAt_serve w o h), serve_again]
  · intro unserved
    apply unmatched
    rintro ⟨c, shape, h⟩
    rw [serviceFrame_matched h] at unserved
    exact Bool.false_ne_true unserved.symm

end Rayman2Recomp
