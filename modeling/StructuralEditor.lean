import StructuralEditor.Data.Path
import StructuralEditor.Session.Command
import StructuralEditor.Proofs.AnyPath
import StructuralEditor.Proofs.Atomicity
import StructuralEditor.Proofs.Coercion
import StructuralEditor.Proofs.Conversion
import StructuralEditor.Proofs.Cutting
import StructuralEditor.Proofs.Faults
import StructuralEditor.Proofs.Independence
import StructuralEditor.Proofs.Items
import StructuralEditor.Proofs.Keyboard
import StructuralEditor.Proofs.Lens
import StructuralEditor.Proofs.Listening
import StructuralEditor.Proofs.Loading
import StructuralEditor.Proofs.Location
import StructuralEditor.Proofs.Logging
import StructuralEditor.Proofs.Lookup
import StructuralEditor.Proofs.Mirror
import StructuralEditor.Proofs.Moving
import StructuralEditor.Proofs.Neighbours
import StructuralEditor.Proofs.Numbers
import StructuralEditor.Proofs.Positions
import StructuralEditor.Proofs.Reachability
import StructuralEditor.Proofs.Retracing
import StructuralEditor.Proofs.RoundTrip
import StructuralEditor.Proofs.Shifting
import StructuralEditor.Proofs.Stopping
import StructuralEditor.Proofs.Typing
import StructuralEditor.Proofs.WellFormed
