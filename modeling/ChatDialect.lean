import ChatDialect.Gateway
import ChatDialect.Main
import ChatDialect.Proofs.Announcement
import ChatDialect.Proofs.Anthropic.Agreement
import ChatDialect.Proofs.Anthropic.Conservation
import ChatDialect.Proofs.Anthropic.Identity
import ChatDialect.Proofs.Chat.Settling
import ChatDialect.Proofs.Content
import ChatDialect.Proofs.Correspondence
import ChatDialect.Proofs.Documents
import ChatDialect.Proofs.InlineData
import ChatDialect.Proofs.Media.DataUrl
import ChatDialect.Proofs.Media.UrlPath
import ChatDialect.Proofs.RoundTrip
import ChatDialect.Proofs.Settling
import ChatDialect.Proofs.Sse.Agreement
import ChatDialect.Proofs.Sse.Causality
import ChatDialect.Proofs.Sse.Faults
import ChatDialect.Proofs.Sse.Noise
import ChatDialect.Proofs.Sse.ReadBack
import ChatDialect.Proofs.Text.Base64Forms
import ChatDialect.Proofs.Vertex.Agreement
import ChatDialect.Proofs.Vertex.Answers
import ChatDialect.Proofs.Vertex.BlankFormats
import ChatDialect.Proofs.Vertex.CallNumbers
import ChatDialect.Proofs.Vertex.Captions
import ChatDialect.Proofs.Vertex.Conservation
import ChatDialect.Proofs.Vertex.Identity
import ChatDialect.Proofs.Vertex.ImageRequests
import ChatDialect.Proofs.Vertex.Keywords
import ChatDialect.Proofs.Vertex.Kinds
import ChatDialect.Proofs.Vertex.Modalities
import ChatDialect.Proofs.Vertex.NormalForm
import ChatDialect.Proofs.Vertex.OptionalTypes
