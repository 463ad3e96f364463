import RegMap.Main
import RegMap.Files.Tree
import RegMap.Verilog.Simulation
import RegMap.Proofs.Group.Placement
import RegMap.Proofs.Group.AddressRanges
import RegMap.Proofs.Group.RegisterFile
import RegMap.Proofs.Group.Wiring
import RegMap.Proofs.Group.Request
import RegMap.Proofs.Group.Recovered
import RegMap.Proofs.Group.WordArithmetic
import RegMap.Proofs.Description.Repaired
import RegMap.Proofs.Description.Loaded
import RegMap.Proofs.Description.Reloaded
import RegMap.Proofs.Description.Joined
import RegMap.Proofs.Description.Surroundings
import RegMap.Proofs.Description.AttributeOrder
import RegMap.Proofs.Description.Defaults
import RegMap.Proofs.MemoryImage.Image
import RegMap.Proofs.MemoryImage.Encoding
import RegMap.Proofs.MemoryImage.Lines
import RegMap.Proofs.MemoryImage.ConvertedFile
import RegMap.Proofs.Command.OutputFiles
