import Typist.Markup.Display
import Typist.CommandLine
import Typist.Double.Shortest
import Typist.Host
import Typist.Host.Folder
import Typist.Key
import Typist.Key.Decode
import Typist.Log
import Typist.Main
import Typist.Pace.Document
import Typist.Proofs.Markup.Dump
import Typist.Proofs.Markup.PausePattern
import Typist.Proofs.Markup.ReadBack
import Typist.Proofs.Markup.Spelling
import Typist.Proofs.Run.Alike
import Typist.Proofs.Run.Cancellation
import Typist.Proofs.Run.Contract
import Typist.Proofs.Run.Erasure
import Typist.Proofs.Run.Frame
import Typist.Proofs.Run.Region
import Typist.Proofs.Run.Replay
import Typist.Proofs.Run.Shells
import Typist.Proofs.Run.Visible
import Typist.Proofs.Run.Twins
import Typist.Proofs.Show.FinalText
import Typist.Proofs.Show.Keys
import Typist.Proofs.Show.Quit
import Typist.Proofs.Sheet.Walk
import Typist.Proofs.Double.Rounding
import Typist.Proofs.Surface.Faithful
import Typist.Proofs.Double.Arithmetic
import Typist.Proofs.Pace.Spread
import Typist.Proofs.Run.Overflow
import Typist.Proofs.Run.Tally
import Typist.Proofs.Run.Schedule
import Typist.Proofs.Markup.Places
import Typist.Proofs.Markup.RegionEnd
import Typist.Proofs.Markup.PauseGrammar
import Typist.Proofs.Markup.LineBreaks
import Typist.Proofs.Deck.Sections
import Typist.Proofs.Projector.Pictures
import Typist.Proofs.Deck.Written
import Typist.Proofs.Deck.Headers
import Typist.Proofs.Screen.StyledLines
import Typist.Proofs.Listing.Blocks
import Typist.Proofs.Settings.Color
import Typist.Proofs.Sheet.Climbing
import Typist.Proofs.Text.Quoted
import Typist.Proofs.Markup.Display
import Typist.Proofs.Screen.Rows
