import EmbeddedApps.Kernel.Action
import EmbeddedApps.Main
import EmbeddedApps.Memory.Lemmas
import EmbeddedApps.Objects.Specimen
import EmbeddedApps.Simulator.Handover
import EmbeddedApps.Proofs.Memory.Window
import EmbeddedApps.Proofs.Memory.Copy
import EmbeddedApps.Proofs.Image.Segments
import EmbeddedApps.Proofs.Image.Install
import EmbeddedApps.Proofs.Directory
import EmbeddedApps.Proofs.Image.Resident
import EmbeddedApps.Proofs.Image.Encoded
import EmbeddedApps.Proofs.Image.RoundTrip
import EmbeddedApps.Proofs.Machine
import EmbeddedApps.Proofs.Arena
import EmbeddedApps.Proofs.Arena.Grants
import EmbeddedApps.Proofs.Kernel.Boot
import EmbeddedApps.Proofs.Kernel.Outcomes
import EmbeddedApps.Proofs.Kernel.Layout
import EmbeddedApps.Proofs.Kernel.Start
import EmbeddedApps.Proofs.Loader
import EmbeddedApps.Proofs.Image.Loading
import EmbeddedApps.Proofs.Simulator
import EmbeddedApps.Proofs.Simulator.Course
import EmbeddedApps.Proofs.Simulator.Programs
import EmbeddedApps.Proofs.Simulator.Handover
import EmbeddedApps.Proofs.Directory.Attempts
import EmbeddedApps.Proofs.Loader.Requests
import EmbeddedApps.Proofs.Kernel.Runs
import EmbeddedApps.Proofs.Kernel.Holdings
import EmbeddedApps.Proofs.Text.Numeral
import EmbeddedApps.Proofs.Assembler.Reading
import EmbeddedApps.Proofs.Bundle.Symbols
import EmbeddedApps.Proofs.Assembler.Assembly
import EmbeddedApps.Proofs.Assembler.Lines
import EmbeddedApps.Proofs.Assembler.Layout
import EmbeddedApps.Proofs.Image.Moved
import EmbeddedApps.Proofs.Assembler.Linked
import EmbeddedApps.Proofs.Kernel.Readiness
import EmbeddedApps.Proofs.Kernel.Room
import EmbeddedApps.Proofs.Kernel.Confinement
import EmbeddedApps.Proofs.Loader.Containment
import EmbeddedApps.Proofs.Text.Lines
import EmbeddedApps.Proofs.FileTree
import EmbeddedApps.Proofs.Bundle.Manifest
import EmbeddedApps.Proofs.Bundle.Grammar
import EmbeddedApps.Proofs.Bundle.Reading
import EmbeddedApps.Proofs.Bundle.Output
import EmbeddedApps.Proofs.Packer.Run
import EmbeddedApps.Proofs.Packer.Outputs
import EmbeddedApps.Proofs.Arena.Fit
import EmbeddedApps.Proofs.Loader.Stops
import EmbeddedApps.Bundle.Addition
import EmbeddedApps.Directory.View
import EmbeddedApps.Proofs.Directory.Views
import EmbeddedApps.Proofs.Directory.Walks
import EmbeddedApps.Proofs.Objects.Population
import EmbeddedApps.Proofs.Image.Packing
import EmbeddedApps.Proofs.Bundle.LineByLine
import EmbeddedApps.Proofs.Bundle.Unreadable
import EmbeddedApps.Proofs.Bundle.Additions
import EmbeddedApps.Proofs.Word.Alignment
import EmbeddedApps.Proofs.Assembler.Tables
import EmbeddedApps.Proofs.Assembler.Names
import EmbeddedApps.Proofs.Assembler.Quoting
import EmbeddedApps.Proofs.Packer.OptionOrder
