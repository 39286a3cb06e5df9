import LosslessJpeg.Proofs.Scan.ScanTokens
import LosslessJpeg.Scan.Decoder

set_option autoImplicit false

/-!
Decoding a sequential scan of all components into grids of zeros gives the grids that its
tokens were made of exactly if these are representable.
-/

namespace LosslessJpeg

open BitReader (Supplies)
open BlockDecoder (RepresentableAfter decode_blockTokens)

namespace ScanDecoder

def decodeBlocks (parts : Array CodedComponent) (addresses : List BlockAddress) :
    ScanDecoder Unit :=
  addresses.forM (decodeBlock parts)

theorem decodeBlocks_cons (parts : Array CodedComponent) (address : BlockAddress)
    (rest : List BlockAddress) :
    decodeBlocks parts (address :: rest) =
      (do
        decodeBlock parts address
        decodeBlocks parts rest) :=
  rfl

theorem decodeUnits_withoutRestarts (parts : Array CodedComponent) (layout : ScanLayout)
    (remaining unit : Nat) :
    decodeUnits parts layout 0 remaining unit =
      decodeBlocks parts ((List.range' unit remaining).flatMap layout.blocks) := by
  induction remaining generalizing unit with
  | zero => rfl
  | succ remaining inductionHypothesis =>
      unfold decodeBlocks at inductionHypothesis ⊢
      rw [decodeUnits, inductionHypothesis, List.range'_succ, List.flatMap_cons,
        List.forM_eq_forM, List.forM_append]
      rfl

def InPlace (parts : Array CodedComponent) : Prop :=
  ∀ (place : Nat) (part : CodedComponent), parts[place]? = some part → part.index = place

variable {frame : Frame} {parts : Array CodedComponent} {address : BlockAddress}
  {state after : ScanState}

theorem store_blockAt {part : CodedComponent} (fits : frame.Fits state.grids)
    (inPlace : part.index = address.component) (inside : address.Inside frame)
    (block : BlockState) {other : BlockAddress} (otherInside : other.Inside frame) :
    blockAt (store state part address block).grids other =
      if other = address then block.block else blockAt state.grids other := by
  unfold store
  rw [inPlace]
  exact fits.blockAt_modify inside otherInside block.block

theorem decodeBlock_eq_ok (inside : address.component < parts.size)
    (done : decodeBlock parts address state = .ok () after) :
    ∃ part block, parts[address.component]? = some part ∧
      part.coding.decode (blockState state part address) = .ok () block ∧
      after = store state part address block := by
  unfold decodeBlock at done
  rw [Array.getElem?_eq_getElem inside] at done
  dsimp only at done
  split at done
  · rename_i block decoded
    cases done
    exact ⟨_, block, Array.getElem?_eq_getElem inside, decoded, rfl⟩
  · cases done

theorem decodeBlock_fits (fits : frame.Fits state.grids)
    (done : decodeBlock parts address state = .ok () after) : frame.Fits after.grids := by
  unfold decodeBlock at done
  split at done
  · cases done
    exact fits
  · split at done
    · cases done
      exact fits.modify _ _ _ _
    · cases done

theorem decodeBlocks_fits {addresses : List BlockAddress} (fits : frame.Fits state.grids)
    (done : decodeBlocks parts addresses state = .ok () after) : frame.Fits after.grids := by
  induction addresses generalizing state with
  | nil =>
      cases done
      exact fits
  | cons address rest inductionHypothesis =>
      rw [decodeBlocks_cons] at done
      obtain ⟨_, between, first, others⟩ := run_bind_eq_ok done
      exact inductionHypothesis (decodeBlock_fits fits first) others

theorem decodeBlock_frame (inPlace : InPlace parts) (size : parts.size = frame.components.length)
    (fits : frame.Fits state.grids) (inside : address.Inside frame)
    (done : decodeBlock parts address state = .ok () after) {other : BlockAddress}
    (otherInside : other.Inside frame) (different : other ≠ address) :
    blockAt after.grids other = blockAt state.grids other := by
  obtain ⟨component, found, -⟩ := id inside
  have bound : address.component < parts.size :=
    size ▸ (List.getElem?_eq_some_iff.mp found).1
  obtain ⟨part, block, there, -, rfl⟩ := decodeBlock_eq_ok bound done
  rw [store_blockAt fits (inPlace _ _ there) inside block otherInside, if_neg different]

theorem decodeBlocks_frame {addresses : List BlockAddress} (inPlace : InPlace parts)
    (size : parts.size = frame.components.length) (fits : frame.Fits state.grids)
    (inside : ∀ address ∈ addresses, address.Inside frame)
    (done : decodeBlocks parts addresses state = .ok () after) {other : BlockAddress}
    (otherInside : other.Inside frame) (absent : other ∉ addresses) :
    blockAt after.grids other = blockAt state.grids other := by
  induction addresses generalizing state with
  | nil =>
      cases done
      rfl
  | cons address rest inductionHypothesis =>
      rw [decodeBlocks_cons] at done
      obtain ⟨_, between, first, others⟩ := run_bind_eq_ok done
      rw [List.mem_cons, not_or] at absent
      have same := decodeBlock_frame inPlace size fits (inside address List.mem_cons_self) first
        otherInside absent.1
      have sameAfter := inductionHypothesis (decodeBlock_fits fits first)
        (fun other member => inside other (List.mem_cons_of_mem _ member)) others absent.2
      rw [sameAfter, same]

structure ReadsTables (encoder : ScanEncoder) (tables : List (Fin 4))
    (parts : Array CodedComponent) : Prop where
  inPlace : InPlace parts
  coding : ∀ (place : Nat) (part : CodedComponent), parts[place]? = some part →
    ∃ dc ac, part.coding = .sequential dc ac ∧ encoder.ReadBy (tables.getD place 0) dc ac

/-- A state from which blocks are still to be decoded: their places hold zeros, and the
reader supplies the bits of their tokens. -/
structure Awaits (frame : Frame) (encoder : ScanEncoder) (grids : Array Grid)
    (tables : List (Fin 4)) (closing : Closing) (more : List Bool)
    (addresses : List BlockAddress) (state : ScanState) : Prop where
  inside : ∀ address ∈ addresses, address.Inside frame
  nodup : addresses.Nodup
  fits : frame.Fits state.grids
  between : state.endOfBandRun = 0
  blank : ∀ address ∈ addresses, blockAt state.grids address = Block.zero
  encodes : ∀ token ∈ tokensAlong grids tables state.predictors addresses,
    encoder.Encodes token
  supplies : Supplies closing state.reader
    (encoder.bits (tokensAlong grids tables state.predictors addresses) ++ more)

variable {encoder : ScanEncoder} {grids : Array Grid} {tables : List (Fin 4)}
  {closing : Closing} {more : List Bool} {rest addresses : List BlockAddress}

private theorem Awaits.next {part : CodedComponent} {left : BitReader}
    (awaits : Awaits frame encoder grids tables closing more (address :: rest) state)
    (inPlace : part.index = address.component)
    (supplies : Supplies closing left (encoder.bits
      (tokensAlong grids tables (advance grids state.predictors address) rest) ++ more)) :
    Awaits frame encoder grids tables closing more rest
      (store state part address
        { reader := left
          predictor := ((blockAt grids address).get 0).toInt
          endOfBandRun := state.endOfBandRun
          block := blockAt grids address }) where
  inside := fun other member => awaits.inside other (List.mem_cons_of_mem _ member)
  nodup := (List.nodup_cons.mp awaits.nodup).2
  fits := awaits.fits.modify _ _ _ _
  between := awaits.between
  blank := by
    intro other member
    have different : other ≠ address := fun equal =>
      (List.nodup_cons.mp awaits.nodup).1 (equal ▸ member)
    rw [store_blockAt awaits.fits inPlace (awaits.inside address List.mem_cons_self) _
      (awaits.inside other (List.mem_cons_of_mem _ member)), if_neg different]
    exact awaits.blank other (List.mem_cons_of_mem _ member)
  encodes := fun token member => awaits.encodes token (List.mem_append_right _ member)
  supplies := supplies

theorem Awaits.decodeBlock (reads : ReadsTables encoder tables parts)
    (size : parts.size = frame.components.length)
    (awaits : Awaits frame encoder grids tables closing more (address :: rest) state) :
    (RepresentableAfter (state.predictors.getD address.component 0) (blockAt grids address) →
      ∃ after, decodeBlock parts address state = .ok () after ∧
        Awaits frame encoder grids tables closing more rest after ∧
        after.predictors = advance grids state.predictors address ∧
        blockAt after.grids address = blockAt grids address) ∧
      ∀ after, ScanDecoder.decodeBlock parts address state = .ok () after →
        blockAt after.grids address = blockAt grids address →
          RepresentableAfter (state.predictors.getD address.component 0)
            (blockAt grids address) := by
  have inside := awaits.inside address List.mem_cons_self
  obtain ⟨component, found, -⟩ := id inside
  have bound : address.component < parts.size :=
    size ▸ (List.getElem?_eq_some_iff.mp found).1
  have there := Array.getElem?_eq_getElem bound
  have place := reads.inPlace _ _ there
  obtain ⟨dc, ac, sequential, readBy⟩ := reads.coding _ _ there
  have empty : (blockState state parts[address.component] address).block = Block.zero := by
    unfold blockState
    rw [place]
    exact awaits.blank address List.mem_cons_self
  have supplies := awaits.supplies
  rw [tokensAlong, ScanEncoder.bits_append, List.append_assoc] at supplies
  obtain ⟨forward, backward⟩ := decode_blockTokens readBy
    (blockState state parts[address.component] address) (blockAt grids address)
    (fun token member => awaits.encodes token (List.mem_append_left _ member)) supplies
    awaits.between empty
  constructor
  · intro representable
    obtain ⟨left, decoded, suppliesLeft⟩ := forward representable
    refine ⟨_, ?_, awaits.next place suppliesLeft, rfl, ?_⟩
    · unfold ScanDecoder.decodeBlock
      rw [there]
      dsimp only
      rw [sequential, decoded]
      rfl
    · rw [store_blockAt awaits.fits place inside _ inside, if_pos rfl]
  · intro after done same
    obtain ⟨part, block, there', decoded, rfl⟩ := decodeBlock_eq_ok bound done
    rw [there] at there'
    cases there'
    rw [sequential] at decoded
    apply backward block decoded
    rw [store_blockAt awaits.fits place inside block inside, if_pos rfl] at same
    exact same

theorem Awaits.decodeBlocks_of_representable (reads : ReadsTables encoder tables parts)
    (size : parts.size = frame.components.length)
    (awaits : Awaits frame encoder grids tables closing more addresses state)
    (representable : RepresentableAlong grids state.predictors addresses) :
    ∃ after, decodeBlocks parts addresses state = .ok () after ∧
      Awaits frame encoder grids tables closing more [] after ∧
      ∀ address ∈ addresses, blockAt after.grids address = blockAt grids address := by
  induction addresses generalizing state with
  | nil =>
      refine ⟨state, rfl, awaits, ?_⟩
      intro address member
      cases member
  | cons address rest inductionHypothesis =>
      obtain ⟨absent, -⟩ := List.nodup_cons.mp awaits.nodup
      obtain ⟨here, later⟩ := representable
      obtain ⟨next, first, awaitsNext, predictors, same⟩ := (awaits.decodeBlock reads size).1 here
      rw [← predictors] at later
      obtain ⟨after, others, awaitsAfter, sameRest⟩ := inductionHypothesis awaitsNext later
      refine ⟨after, (run_bind_of_ok first).trans others, awaitsAfter, ?_⟩
      intro other member
      rcases List.mem_cons.mp member with equal | inRest
      · -- The blocks behind the first leave it alone.
        rw [equal, decodeBlocks_frame reads.inPlace size awaitsNext.fits awaitsNext.inside others
          (awaits.inside address List.mem_cons_self) absent, same]
      · exact sameRest other inRest

/-- All awaited blocks come back exactly if all of them are representable. -/
theorem Awaits.decodeBlocks (reads : ReadsTables encoder tables parts)
    (size : parts.size = frame.components.length)
    (awaits : Awaits frame encoder grids tables closing more addresses state) :
    (∃ after, decodeBlocks parts addresses state = .ok () after ∧
      ∀ address ∈ addresses, blockAt after.grids address = blockAt grids address) ↔
      RepresentableAlong grids state.predictors addresses := by
  refine ⟨?_, fun representable => ?_⟩
  · rintro ⟨after, done, same⟩
    induction addresses generalizing state with
    | nil => trivial
    | cons address rest inductionHypothesis =>
        obtain ⟨absent, -⟩ := List.nodup_cons.mp awaits.nodup
        obtain ⟨forward, backward⟩ := awaits.decodeBlock reads size
        rw [decodeBlocks_cons] at done
        obtain ⟨_, between, first, others⟩ := run_bind_eq_ok done
        have kept := decodeBlocks_frame reads.inPlace size (decodeBlock_fits awaits.fits first)
          (fun other member => awaits.inside other (List.mem_cons_of_mem _ member)) others
          (awaits.inside address List.mem_cons_self) absent
        have representable := backward between first
          (kept.symm.trans (same address List.mem_cons_self))
        obtain ⟨next, again, awaitsNext, predictors, -⟩ := forward representable
        rw [first] at again
        cases again
        refine ⟨representable, ?_⟩
        rw [← predictors]
        exact inductionHypothesis awaitsNext others fun other member =>
          same other (List.mem_cons_of_mem _ member)
  · obtain ⟨after, decoded, -, same⟩ :=
      awaits.decodeBlocks_of_representable reads size representable
    exact ⟨after, decoded, same⟩

end ScanDecoder

section WholeScan

open ScanDecoder

variable {frame : Frame} {scan : Scan} {slots : HuffmanSlots} {parts : List CodedComponent}
  {grids : Array Grid} {tables : List (Fin 4)} {closing : Closing} {tokens : Array Token}
  {data : List UInt8}

private theorem awaits_start {encoder : ScanEncoder}
    {bytes content : List UInt8} {padding : Nat}
    (carries : Carries closing bytes content)
    (listed : tokens.toList = tokensAlong grids tables (Array.replicate grids.size 0)
      (ScanLayout.interleaved frame frame.components).order)
    (encodes : ∀ token ∈ tokens.toList, encoder.Encodes token)
    (held : byteBits content = encoder.bits tokens.toList ++ List.replicate padding true) :
    Awaits frame encoder grids tables closing (List.replicate padding true)
      (ScanLayout.interleaved frame frame.components).order
      { reader := BitReader.ofBytes bytes
        predictors := Array.replicate grids.size 0
        endOfBandRun := 0
        grids := frame.zeroGrids } where
  inside := fun _ member => ScanLayout.mem_order_interleaved.mp member
  nodup := ScanLayout.order_interleaved_nodup frame
  fits := frame.fits_zeroGrids
  between := rfl
  blank := fun address _ => frame.blockAt_zeroGrids address
  encodes := by
    rw [← listed]
    exact encodes
  supplies := by
    rw [← listed, ← held]
    exact BitReader.supplies_ofBytes carries

/-- A scan that has been written for grids gives these grids back exactly if they are
representable. -/
theorem Scan.decode_tokenBytes (closing : Closing)
    (normal : soleComponent frame.components = frame.components)
    (coded : scan.codedComponents frame slots frame.zeroGrids.size = .ok parts)
    (components : parts.map (·.component) = frame.components)
    (reads : ReadsTables (ScanEncoder.ofSlots slots) tables parts.toArray)
    (fits : frame.Fits grids) (collected : scanTokens frame grids tables = .ok tokens)
    (written : tokenBytes slots tokens = .ok data) (notStuffing : closing.marker ≠ 0)
    (notFill : closing.marker ≠ 0xFF) :
    scan.decode frame slots 0 (data ++ 0xFF :: closing.marker :: closing.after)
        frame.zeroGrids = .ok () grids ↔
      Representable frame grids := by
  obtain ⟨encodes, content, padding, stuffedData, -, held⟩ := tokenBytes_eq_ok written
  have listed := scanTokens_eq_ok collected
  have length : parts.length = frame.components.length := by
    rw [← components, List.length_map]
  have awaits := awaits_start
    (carries_stuffed notStuffing notFill content) listed encodes held
  rw [← stuffedData] at awaits
  rw [representable_iff fits, ← awaits.decodeBlocks reads
    (List.size_toArray.trans length)]
  unfold Scan.decode
  rw [coded]
  dsimp only
  rw [components, ScanLayout.ofComponents_eq_interleaved normal,
    decodeUnits_withoutRestarts, ← List.range_eq_range', length, ← fits.size]
  have order : (List.range (ScanLayout.interleaved frame frame.components).units).flatMap
      (ScanLayout.interleaved frame frame.components).blocks =
        (ScanLayout.interleaved frame frame.components).order := rfl
  rw [order]
  -- Decoding to these grids is decoding to some grids, every block of which is one of theirs.
  constructor
  · intro done
    split at done
    · rename_i after decoded
      cases done
      exact ⟨after, decoded, fun _ _ => rfl⟩
    · cases done
  · rintro ⟨after, decoded, same⟩
    have fitsAfter := decodeBlocks_fits frame.fits_zeroGrids decoded
    rw [decoded]
    dsimp only
    rw [fitsAfter.ext fits fun address inside =>
      same address (ScanLayout.mem_order_interleaved.mpr inside)]

end WholeScan

end LosslessJpeg
