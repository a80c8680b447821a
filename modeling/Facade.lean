import Facade.Import
import Facade.Session
import Facade.Proofs.Coherence
import Facade.Proofs.Balance
import Facade.Proofs.Independence
import Facade.Proofs.Reopening
import Facade.Proofs.Development
import Facade.Proofs.Growth
import Facade.Proofs.Layers
import Facade.Proofs.Parameters
import Facade.Proofs.Splitting
import Facade.Proofs.Merging
import Facade.Proofs.Rearrangement
import Facade.Proofs.Repetition
import Facade.Proofs.Overloads
import Facade.Proofs.Dynamic
import Facade.Proofs.Repeated
import Facade.Proofs.Constructors
import Facade.Proofs.Rendering
import Facade.Proofs.Fallback
import Facade.Proofs.Visits
import Facade.Proofs.Contents
import Facade.Proofs.Accessors
import Facade.Proofs.Namesakes
import Facade.Proofs.Comments
import Facade.Proofs.Quoting
import Facade.Proofs.Objects
import Facade.Proofs.Abbreviation
import Facade.Proofs.Recovery
import Facade.Proofs.Placeholders
import Facade.Proofs.Placement
