import LineScript.Session
import LineScript.Server.Request
import LineScript.Main
import LineScript.Proofs.Outcome
import LineScript.Proofs.Uncapped
import LineScript.Proofs.Layout
import LineScript.Proofs.Sequence
import LineScript.Proofs.OutputBound
import LineScript.Proofs.Applied
import LineScript.Proofs.Provenance
import LineScript.Proofs.Lockstep
import LineScript.Proofs.Names
import LineScript.Proofs.AllDoubles
import LineScript.Proofs.Loop
import LineScript.Proofs.ChainValue
import LineScript.Proofs.FrontEnds
import LineScript.Proofs.Order
import LineScript.Proofs.Simultaneous
import LineScript.Proofs.Header
import LineScript.Proofs.Progress
import LineScript.Proofs.WholeNumber
import LineScript.Proofs.Laminar
import LineScript.Proofs.Verbatim
import LineScript.Proofs.Counting
import LineScript.Proofs.ArgumentOrder
import LineScript.Proofs.CorrectRounding
import LineScript.Proofs.DecimalRounding
import LineScript.Proofs.NumericText
import LineScript.Proofs.ReadBack
import LineScript.Proofs.PrintCall
