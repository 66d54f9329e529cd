import ChipEight.Main
import ChipEight.Screen.Plane
import ChipEight.Tone.Gate
import ChipEight.Proofs.Screen.Flipping
import ChipEight.Proofs.Instr.Table
import ChipEight.Proofs.Machine.Instructions
import ChipEight.Proofs.Machine.Steps
import ChipEight.Proofs.Machine.Safety
import ChipEight.Proofs.Machine.Frames
import ChipEight.Proofs.Machine.Sessions
import ChipEight.Proofs.Machine.Runs
import ChipEight.Proofs.Machine.Failure
import ChipEight.Proofs.Machine.Calls
import ChipEight.Proofs.Machine.Drawing
import ChipEight.Proofs.Machine.Footprint
import ChipEight.Proofs.Machine.Reload
import ChipEight.Proofs.Machine.Rolling
import ChipEight.Proofs.Machine.Ticking
import ChipEight.Proofs.Machine.Unasked
import ChipEight.Proofs.Machine.Listed
import ChipEight.Proofs.Run.Ending
import ChipEight.Proofs.Screen.Painting
import ChipEight.Proofs.Keypad.Slices
import ChipEight.Proofs.Instr.Encoding
import ChipEight.Proofs.Picture.Reading
import ChipEight.Proofs.Screen.Clipping
import ChipEight.Proofs.Machine.Loading
import ChipEight.Proofs.CommandLine.Delivering
import ChipEight.Proofs.CommandLine.Headless
import ChipEight.Proofs.Tone.Gating
import ChipEight.Proofs.Instr.Entries
import ChipEight.Proofs.Machine.Blocks
import ChipEight.Proofs.Keypad.Holding
import ChipEight.Proofs.Machine.Arithmetic
import ChipEight.Proofs.Machine.Waiting
import ChipEight.Proofs.Screen.Reordering
import ChipEight.Proofs.Machine.Streams
import ChipEight.Proofs.Picture.CutShort
import ChipEight.Proofs.Instr.Mnemonics
import ChipEight.Proofs.Screen.Placing
import ChipEight.Proofs.Machine.Sizing
import ChipEight.Proofs.Keypad.Matching
import ChipEight.Proofs.Ram.Changes
import ChipEight.Proofs.Tone.Waves
import ChipEight.Proofs.Screen.Planes
