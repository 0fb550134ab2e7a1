import VoWiFi.Lib.RoseTree
import VoWiFi.Lib.Cursor
import VoWiFi.Lib.CString
import VoWiFi.Lib.JavaString
import VoWiFi.Lib.Run
import VoWiFi.Lib.Footprint
import VoWiFi.Control.Proofs.TestcaseProofs
import VoWiFi.Control.MessageLog
import VoWiFi.Epdg.Decoder
import VoWiFi.Epdg.Proofs.BracketProofs
import VoWiFi.Epdg.Proofs.NumberingProofs
import VoWiFi.Epdg.Proofs.CodecProofs
import VoWiFi.Epdg.Proofs.NatdProofs
import VoWiFi.Epdg.Proofs.ManagerProofs
import VoWiFi.Report.Proofs.SocketProofs
import VoWiFi.Epdg.Proofs.FilterProofs
import VoWiFi.Epdg.Response
import VoWiFi.Epdg.Proofs.ResponseProofs
import VoWiFi.Ims.HeaderValue
import VoWiFi.Ims.Proofs.HeaderValueProofs
import VoWiFi.Ims.Message
import VoWiFi.Ims.ProcessQuery
import VoWiFi.Ims.Response
import VoWiFi.Ims.Proofs.ResponseProofs
import VoWiFi.Ims.Frame
import VoWiFi.Ims.Proofs.FrameProofs
import VoWiFi.Control.ReportTree
import VoWiFi.Control.Proofs.MessageLogProofs
import VoWiFi.Report.Codec
import VoWiFi.Report.Proofs.CodecProofs
import VoWiFi.Epdg.Publication
import VoWiFi.Epdg.Proofs.PublicationProofs
import VoWiFi.Ims.ReportMessage
import VoWiFi.Ims.SendQueue
import VoWiFi.Ims.Proofs.SendQueueProofs
import VoWiFi.Ims.Numbering
import VoWiFi.Ims.Proofs.NumberingProofs
import VoWiFi.Control.Campaign
import VoWiFi.Control.Proofs.CampaignProofs
import VoWiFi.Lib.TreeSearch
import VoWiFi.Scripts.Generate
import VoWiFi.Scripts.Proofs.GenerateProofs
import VoWiFi.Epdg.ResponseChain
import VoWiFi.Epdg.Proofs.ResponseChainProofs
import VoWiFi.Epdg.Interleaving
import VoWiFi.Epdg.Proofs.InterleavingProofs
import VoWiFi.Lib.Steps
import VoWiFi.Lib.Fill
import VoWiFi.Lib.FirstEach
import VoWiFi.Lib.RoomArray
import VoWiFi.Epdg.Update
import VoWiFi.Epdg.Proofs.UpdateProofs
import VoWiFi.Epdg.InitHashTable
import VoWiFi.Epdg.Proofs.InitHashTableProofs
import VoWiFi.Epdg.IkeHeader
import VoWiFi.Epdg.Proofs.IkeHeaderProofs
import VoWiFi.Epdg.EapAka
import VoWiFi.Epdg.Proofs.EapAkaProofs
import VoWiFi.Epdg.ProcessQuery
import VoWiFi.Epdg.PayloadChain
import VoWiFi.Epdg.Proofs.PayloadChainProofs
import VoWiFi.Epdg.Recognition
import VoWiFi.Epdg.Proofs.RecognitionProofs
import VoWiFi.Epdg.Proposal
import VoWiFi.Epdg.Proofs.TransformProofs
import VoWiFi.Epdg.Proofs.ProposalProofs
import VoWiFi.Control.Proofs.OracleProofs
import VoWiFi.Control.Loading
import VoWiFi.Control.Proofs.LoadingProofs
import VoWiFi.Control.Execute
import VoWiFi.Control.Proofs.ExecuteProofs
import VoWiFi.Lib.LinkedList
import VoWiFi.Ims.HeaderList
import VoWiFi.Ims.Proofs.HeaderListProofs
import VoWiFi.Ims.ValueList
import VoWiFi.Ims.Proofs.ValueListProofs
import VoWiFi.Ims.Mutation
import VoWiFi.Ims.Proofs.MutationProofs
import VoWiFi.Ims.Reparse
import VoWiFi.Ims.Proofs.ReparseProofs
import VoWiFi.Lib.Brackets
import VoWiFi.Epdg.Listener
import VoWiFi.Ims.Listener
import VoWiFi.Report.Resync
import VoWiFi.Report.Proofs.ResyncProofs
import VoWiFi.Lib.TaggedStream
import VoWiFi.Report.Integrity
import VoWiFi.Report.Proofs.IntegrityProofs
import VoWiFi.Lib.Shift
import VoWiFi.Report.SendQueue
import VoWiFi.Report.Proofs.SendQueueProofs
import VoWiFi.Report.IntText
import VoWiFi.Report.Proofs.IntTextProofs
import VoWiFi.Epdg.Flags
import VoWiFi.Epdg.Proofs.FlagsProofs
import VoWiFi.Ims.FirstLine
import VoWiFi.Ims.Proofs.FirstLineProofs
import VoWiFi.Epdg.Suppression
import VoWiFi.Epdg.Proofs.SuppressionProofs
import VoWiFi.Lib.PyString
import VoWiFi.Lib.Blocks
import VoWiFi.Scripts.KeyExtractor
import VoWiFi.Scripts.KeyLog
import VoWiFi.Scripts.Proofs.KeyExtractorProofs
import VoWiFi.Lib.Json
import VoWiFi.Lib.JsonReader
import VoWiFi.Scripts.PropertyFile
import VoWiFi.Scripts.Substitution
import VoWiFi.Scripts.Proofs.SubstitutionProofs
import VoWiFi.Lib.TreePath
import VoWiFi.Scripts.PropertyDoc
import VoWiFi.Scripts.Positions
import VoWiFi.Scripts.Proofs.PropertyFileProofs
import VoWiFi.Scripts.Proofs.AdversarialProofs
import VoWiFi.Scripts.Proofs.PropertyDocProofs
import VoWiFi.Scripts.Proofs.PositionProofs
import VoWiFi.Lib.BitString
import VoWiFi.Epdg.Encoding
import VoWiFi.Epdg.Proofs.GeneratorProofs
import VoWiFi.Epdg.Proofs.ParserProofs
import VoWiFi.Epdg.Proofs.EncodingProofs
import VoWiFi.Lib.RuleOrder
import VoWiFi.Epdg.Content
import VoWiFi.Epdg.Proofs.ContentProofs
import VoWiFi.Lib.Cipher
import VoWiFi.Epdg.EncryptedPayload
import VoWiFi.Epdg.Proofs.EncryptedPayloadProofs
import VoWiFi.Lib.Collect
import VoWiFi.Epdg.Fragmentation
import VoWiFi.Epdg.Proofs.FragmentationProofs
import VoWiFi.Lib.Tally
import VoWiFi.Lib.Buckets
import VoWiFi.Epdg.SaTable
import VoWiFi.Epdg.Proofs.SaTableProofs
import VoWiFi.Epdg.Proofs.HalfOpenProofs
import VoWiFi.Epdg.Proofs.SaRunProofs
import VoWiFi.Epdg.Proofs.HandsProofs
import VoWiFi.Epdg.Proofs.CheckoutProofs
