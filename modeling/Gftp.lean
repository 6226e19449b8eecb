import Gftp.BigEndian
import Gftp.PeerCheck
import Gftp.LineReading
import Gftp.LineBounds
import Gftp.LineSource
import Gftp.LineFeeds
import Gftp.ReplyLines
import Gftp.ReplyCutOff
import Gftp.LineTermination
import Gftp.HttpReadWeight
import Gftp.HttpHeaderEnd
import Gftp.LineOrigins
import Gftp.Hexadecimal
import Gftp.Sockets
import Gftp.HttpDecoding
import Gftp.HttpResponses
import Gftp.HttpBodies
import Gftp.HttpOrigins
import Gftp.FtpCommands
import Gftp.FtpReplies
import Gftp.FreshConnections
import Gftp.HttpChunks
import Gftp.Protocol
import Gftp.SshMessages
import Gftp.SshExecArgs
import Gftp.SshUpload
import Gftp.CopyLoop
import Gftp.TransferRun
import Gftp.ResumeOffsets
import Gftp.RemovalAfterSuccess
import Gftp.SkipRequests
import Gftp.TransferState
import Gftp.CacheIndex
import Gftp.CacheLines
import Gftp.CacheRewrite
import Gftp.Runs
import Gftp.CacheUnlink
import Gftp.CacheListings
import Gftp.CacheCompleteness
import Gftp.DirListing
import Gftp.FtpListing
import Gftp.FtpReplay
import Gftp.SshDecoding
import Gftp.SshFileSizes
import Gftp.SshReaders
import Gftp.SshReplay
import Gftp.TypeAgreement
import Gftp.DataConnections
import Gftp.ReplyAlignment
import Gftp.ReconnectBound
import Gftp.ProgressAccounts
import Gftp.TotalSizes
import Gftp.LinkedLists
import Gftp.UpdateCursor
import Gftp.TransferQueue
import Gftp.WindowTransfers
import Gftp.DirectoryReads
import Gftp.LocalListings
import Gftp.Subdirs
import Gftp.SubdirWalk
import Gftp.ListingOrder
import Gftp.DeviceHashes
import Gftp.Worklists
import Gftp.SubdirEnd
import Gftp.DirectoryRestores
import Gftp.EntryNames
import Gftp.BookmarkLaw
import Gftp.BookmarkEditor
import Gftp.BookmarkRoundTrip
import Gftp.OptionHashes
import Gftp.ConfigFile
import Gftp.ConfigRoundTrip
import Gftp.ProxyBypass
import Gftp.ProxyRecords
import Gftp.CachePurge
import Gftp.AsciiTransfers
import Gftp.TransferSetUp
import Gftp.RetryBound
import Gftp.FtpEvents
import Gftp.FxpTransfers
import Gftp.SshListState
import Gftp.LinkSystems
import Gftp.DeletionScope
import Gftp.WriteLoops
import Gftp.SshStatusCheck
import Gftp.SshSendBounds
import Gftp.RelatedRuns
import Gftp.SshStateCopy
import Gftp.EplfListing
import Gftp.ListingFields
import Gftp.SafeRuns
import Gftp.VmsListing
import Gftp.ListingSafety
import Gftp.UnixLines
import Gftp.UnixListing
import Gftp.SshNameRuns
import Gftp.ByteReaders
import Gftp.SshRequests
import Gftp.PasswordChars
import Gftp.Base64
import Gftp.HttpCredentials
import Gftp.Wildcards
import Gftp.FilespecMatching
import Gftp.FilespecBuffer
import Gftp.LexicalPaths
import Gftp.PathExpansion
import Gftp.TextIndices
import Gftp.UrlParsing
import Gftp.CanonicalUrls
import Gftp.ListOperations
import Gftp.FileSorting
import Gftp.DragUrls
import Gftp.CommentLines
import Gftp.ThousandsSeparators
import Gftp.WorkingDirectory
import Gftp.ProxyScripts
import Gftp.ConfigArguments
import Gftp.FileExtensions
import Gftp.ParameterWords
import Gftp.CharsetLists
import Gftp.BookmarkBuffer
import Gftp.ListWalks
import Gftp.CompareWindows
import Gftp.SavedListings
import Gftp.DoneProcesses
import Gftp.TransferMoves
import Gftp.HistoryLists
import Gftp.AsciiExtensions
import Gftp.Replacements
import Gftp.MultilineTexts
import Gftp.LoginBuffer
import Gftp.LongLines
import Gftp.HtmlLines
import Gftp.HtmlListing
import Gftp.FoldedSums
import Gftp.FspPackets
import Gftp.FspTransactions
import Gftp.FspFiles
import Gftp.FspDownloads
import Gftp.PositionedWrites
import Gftp.FspUploads
import Gftp.FspDirectories
import Gftp.FtpLogins
import Gftp.RetriedCopies
import Gftp.DataAddresses
import Gftp.ServerConnects
import Gftp.ClientReplies
