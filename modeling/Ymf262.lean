import Ymf262.Main
import Ymf262.Proofs.Banks
import Ymf262.Proofs.Bus
import Ymf262.Proofs.Commutation
import Ymf262.Proofs.DerivedValues
import Ymf262.Proofs.Footprint
import Ymf262.Proofs.Infallible
import Ymf262.Proofs.KeyEdges
import Ymf262.Proofs.Keying
import Ymf262.Proofs.LastWrite
import Ymf262.Proofs.LogAsWrites
import Ymf262.Proofs.LogFormat
import Ymf262.Proofs.Overwriting
import Ymf262.Proofs.PhaseSteps
import Ymf262.Proofs.RegisterMap
import Ymf262.Proofs.Sampled
import Ymf262.Proofs.Schedule
import Ymf262.Proofs.ScreenCells
import Ymf262.Proofs.Stepping
import Ymf262.Proofs.TickLimit
import Ymf262.Proofs.Transcript
import Ymf262.Proofs.WriteSyntax
