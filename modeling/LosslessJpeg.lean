import LosslessJpeg.Proofs.Bits.FieldRoundTrip
import LosslessJpeg.Proofs.Checked.Transforming
import LosslessJpeg.Proofs.Huffman.Minimality
import LosslessJpeg.Proofs.Image.CountingLimit
import LosslessJpeg.Proofs.Image.QuantizerTables
import LosslessJpeg.Proofs.Image.ScanPairing
import LosslessJpeg.Proofs.Image.Selectors
import LosslessJpeg.Proofs.Scan.AcPlanes
import LosslessJpeg.Proofs.Scan.ComponentScans
import LosslessJpeg.Proofs.Scan.DcPlanes
import LosslessJpeg.Proofs.Scan.RefinementRange
import LosslessJpeg.Proofs.Scan.RestartRuns
import LosslessJpeg.Proofs.Segments.TableBodies
import LosslessJpeg.Proofs.Transform.InsertedMetadata
import LosslessJpeg.Proofs.Transform.Grayscale
import LosslessJpeg.Proofs.Transform.Lossless
import LosslessJpeg.Proofs.Transform.PartialEdge
import LosslessJpeg.Proofs.Transform.PerfectCrop
import LosslessJpeg.Proofs.Transform.Probing
import LosslessJpeg.Proofs.Transform.Resizing
import LosslessJpeg.Proofs.Transform.Truncation
