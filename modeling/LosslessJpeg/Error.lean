set_option autoImplicit false

/-!
Failures of reading and writing a JPEG file, as causes. The wording of each cause
stands in one place, `CodecError.message`.
-/

namespace LosslessJpeg

inductive Malformation
  | symbolCountMismatch
  | overfullHuffmanTable
  | symbolWithoutCode
  | quantizerPrecision
  | zeroQuantizer
  | tooManySymbols
  | segmentLength
  | emptyScanHeader
  | scanComponentCount
  | spectralParameters
  | segmentTooLong
  | spectralSelectionInSequentialScan
  | mixedProgressiveScan
  | interleavedBandScan
  | scanSelector
  | componentCount
  | severalFrames
  | noScan
  | scanWithoutData
  | gridCount
  deriving DecidableEq, Repr

def Malformation.message : Malformation → String
  | .symbolCountMismatch => "DHT symbol count mismatch"
  | .overfullHuffmanTable => "overfull Huffman table"
  | .symbolWithoutCode => "Huffman table missing code for symbol"
  | .quantizerPrecision => "invalid DQT precision"
  | .zeroQuantizer => "zero quantizer in DQT"
  | .tooManySymbols => "too many Huffman symbols"
  | .segmentLength => "invalid segment length"
  | .emptyScanHeader => "empty SOS"
  | .scanComponentCount => "bad SOS component count"
  | .spectralParameters => "bad SOS spectral parameters"
  | .segmentTooLong => "segment too long"
  | .spectralSelectionInSequentialScan => "sequential scan with spectral selection"
  | .mixedProgressiveScan => "progressive scan mixes DC and AC"
  | .interleavedBandScan => "interleaved progressive AC scan"
  | .scanSelector => "bad scan component selector"
  | .componentCount => "component count mismatch"
  | .severalFrames => "multiple SOF markers"
  | .noScan => "no scan in stream"
  | .scanWithoutData => "scan without data"
  | .gridCount => "one grid per component required"

inductive CodecError
  | unexpectedEnd
  | missingStart
  | missingFrame
  | unsupportedMarker (marker : UInt8)
  | malformed (fault : Malformation)
  /-- The entropy-coded data follows no code of its table, or codes a value out of range. -/
  | undecodable
  | quantizerId (id : Nat)
  | huffmanTableId (id : Nat)
  | unknownComponent (id : UInt8)
  | invalidDimensions
  | unsupportedPrecision (bits : UInt8)
  deriving DecidableEq, Repr

def hexByte (byte : UInt8) : String :=
  String.ofList
    [(Nat.digitChar (byte.toNat / 16)).toUpper, (Nat.digitChar (byte.toNat % 16)).toUpper]

def CodecError.message : CodecError → String
  | .unexpectedEnd => "unexpected end of JPEG data"
  | .missingStart => "missing SOI marker (not a JPEG)"
  | .missingFrame => "no SOF marker found"
  | .unsupportedMarker marker => "unsupported JPEG marker: 0xFF" ++ hexByte marker
  | .malformed fault => "invalid marker data: " ++ fault.message
  | .undecodable => "Huffman decode error"
  | .quantizerId id => s!"invalid quantization table ID: {id}"
  | .huffmanTableId id => s!"invalid Huffman table ID: {id}"
  | .unknownComponent id => s!"unknown component ID in SOS: {id.toNat}"
  | .invalidDimensions => "invalid image dimensions or sampling factors"
  | .unsupportedPrecision bits => s!"unsupported sample precision: {bits.toNat}-bit"

end LosslessJpeg
