import CloudLab.TwoPC.Rollback
import CloudLab.TwoPC.Reply
import CloudLab.TwoPC.Unread
import CloudLab.TwoPC.Vote
import CloudLab.TwoPC.Framing
import CloudLab.TwoPC.Arity
import CloudLab.TwoPC.Returning
import CloudLab.Http.Request
import CloudLab.Http.Pipelined
import CloudLab.Http.Static
import CloudLab.Http.Length
import CloudLab.Http.Search
import CloudLab.Http.Method
import CloudLab.Http.Buffers
import CloudLab.Raft.Quorum
import CloudLab.Raft.SingleLeader
import CloudLab.Raft.LeaderMap
import CloudLab.Raft.Redirect
import CloudLab.Sudoku.Pipeline
import CloudLab.TwoPC.Decision
import CloudLab.TwoPC.Decoding
import CloudLab.TwoPC.ReadBack
import CloudLab.TwoPC.Lines
import CloudLab.TwoPC.Polling
import CloudLab.TwoPC.Conserved
import CloudLab.Sudoku.Restore
import CloudLab.Sudoku.Stuck
import CloudLab.Raft.Majority
import CloudLab.Raft.Electable
import CloudLab.Raft.Heartbeat
import CloudLab.Raft.Config
import CloudLab.Sudoku.Sizes
import CloudLab.TwoPC.Config
import CloudLab.Sudoku.Names
import CloudLab.TearcherCode.Main
import CloudLab.Raft.Provenance
import CloudLab.Raft.Convergence
import CloudLab.Http.Client
