import HeapStore.Main
import HeapStore.Proofs.Boundary
import HeapStore.Proofs.Codec
import HeapStore.Proofs.Damage
import HeapStore.Proofs.Editing
import HeapStore.Proofs.Fates
import HeapStore.Proofs.FirstFit
import HeapStore.Proofs.Flushing
import HeapStore.Proofs.Geometry
import HeapStore.Proofs.Growth
import HeapStore.Proofs.History
import HeapStore.Proofs.Holdings
import HeapStore.Proofs.Images
import HeapStore.Proofs.Inspection
import HeapStore.Proofs.OneSlot
import HeapStore.Proofs.PageArray
import HeapStore.Proofs.Queue
import HeapStore.Proofs.ReadBack
import HeapStore.Proofs.Refusal
import HeapStore.Proofs.Registry
import HeapStore.Proofs.Repeat
import HeapStore.Proofs.RowCodec
import HeapStore.Proofs.Scan
import HeapStore.Proofs.Schemas
import HeapStore.Proofs.SoundPrefix
import HeapStore.Proofs.TableLine
import HeapStore.Store.Host
