import Mosey.Library.Lists
import Mosey.Library.Results
import Mosey.Library.Machine
import Mosey.Library.Authenticity
import Mosey.Library.Network
import Mosey.Library.Delegation
import Mosey.Library.History
import Mosey.Library.Channel
import Mosey.Library.Utf8
import Mosey.Library.Strip
import Mosey.Library.Decoding
import Mosey.Library.Proto3
import Mosey.Library.Varint
import Mosey.Library.Framing
import Mosey.Library.Binary64
import Mosey.Bytes
import Mosey.Text
import Mosey.Timestamps
import Mosey.Ed25519
import Mosey.Cert
import Mosey.Cert.Content
import Mosey.Cert.Revocation
import Mosey.Wallet.Caps
import Mosey.Wallet.Base58
import Mosey.Wallet.Delegation
import Mosey.Wallet.Canonical
import Mosey.Wallet.Fold
import Mosey.Auth.Handshake
import Mosey.Auth.Wrap
import Mosey.Auth.PSK
import Mosey.Auth.Cert
import Mosey.Auth.Wallet
import Mosey.Auth.WalletPolicy
import Mosey.Auth.WalletNetwork
import Mosey.Auth.WalletCarrier
import Mosey.Auth.WalletGate
import Mosey.Auth.PSKNetwork
import Mosey.Auth.CertNetwork
import Mosey.Auth.Delimited
import Mosey.Auth.Wire
import Mosey.WalletSolana.Accounts
import Mosey.WalletSolana.Source
import Mosey.WalletSolana.Expiry
import Mosey.WalletSolana.Rollback
import Mosey.WalletSolana.Watch
import Mosey.WalletSolana.Transaction
import Mosey.WalletSolana.Governance
import Mosey.MoseySession.Entry
import Mosey.MoseySession.Book
import Mosey.MoseySession.Program
import Mosey.MoseySession.Authority
import Mosey.MoseySession.Layout
import Mosey.MoseySession.Snapshot
import Mosey.Streambuf.OutputRing
import Mosey.Streambuf.Reader
import Mosey.Streambuf.InputQueue
import Mosey.Vterm.Session
import Mosey.Vterm.Modes
import Mosey.Vterm.Control
import Mosey.Vterm.FanOut
import Mosey.Vterm.Resume
import Mosey.Vterm.Attach
import Mosey.Vterm.Input
import Mosey.Vterm.Geometry
import Mosey.Vterm.Sizes
import Mosey.Vterm.Observers
import Mosey.Vterm.Queries
import Mosey.Vterm.QueryFilter
import Mosey.Vterm.ExitRun
import Mosey.Vterm.Exit
import Mosey.Vterm.Return
import Mosey.Attach.Resize
import Mosey.Attach.Stdin
import Mosey.Typescript.WalletDelegation
import Mosey.Typescript.Render
import Mosey.Typescript.Parse
import Mosey.Typescript.Proto
import Mosey.Typescript.Cert
import Mosey.Typescript.Varint
import Mosey.Typescript.Base58
import Mosey.Typescript.Messages
import Mosey.Typescript.Walk
import Mosey.Typescript.Fabrication
import Mosey.Typescript.Protodelim
import Mosey.Typescript.Stream
import Mosey.Typescript.Chunking
import Mosey.Typescript.Async
import Mosey.Typescript.Closing
import Mosey.Typescript.Handshake
import Mosey.Typescript.Exchange
import Mosey.Typescript.Wire
import Mosey.Typescript.Calls
import Mosey.Typescript.Conversation.Certificate
import Mosey.Typescript.Conversation.Secret
import Mosey.Typescript.Conversation.Wallet
import Mosey.Web.Login
import Mosey.Web.Admission
