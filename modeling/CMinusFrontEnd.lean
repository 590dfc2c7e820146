import CMinusFrontEnd.Session.Step
import CMinusFrontEnd.Main
import CMinusFrontEnd.Proofs.Lexeme
import CMinusFrontEnd.Proofs.Gap
import CMinusFrontEnd.Proofs.LongestMatch
import CMinusFrontEnd.Proofs.Layout
import CMinusFrontEnd.Proofs.Counting
import CMinusFrontEnd.Proofs.Grammar
import CMinusFrontEnd.Proofs.OpenComment
import CMinusFrontEnd.Proofs.Seam
import CMinusFrontEnd.Proofs.Respacing
import CMinusFrontEnd.Proofs.ListingLines
import CMinusFrontEnd.Proofs.Forest
import CMinusFrontEnd.Proofs.Edits
import CMinusFrontEnd.Proofs.Stock
import CMinusFrontEnd.Proofs.Conservation
import CMinusFrontEnd.Proofs.Destination
import CMinusFrontEnd.Proofs.AllOrNothing
import CMinusFrontEnd.Proofs.Printing
import CMinusFrontEnd.Proofs.Locality
import CMinusFrontEnd.Proofs.Decoding
import CMinusFrontEnd.Proofs.Walk
import CMinusFrontEnd.Proofs.Places
import CMinusFrontEnd.Proofs.Preorder
import CMinusFrontEnd.Proofs.OutlineRange
import CMinusFrontEnd.Proofs.Reading
import CMinusFrontEnd.Proofs.Placement
import CMinusFrontEnd.Proofs.LaterText
import CMinusFrontEnd.Proofs.Chains
import CMinusFrontEnd.Proofs.SourceText
